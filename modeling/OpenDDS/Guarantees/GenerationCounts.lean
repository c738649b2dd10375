import OpenDDS.Guarantees.SampleRanks

/-!
# The generation counts in the sample infos

For every run of a reader, a sample is stored with the counts that its instance has then, and keeps
them as long as it is held. The info that a read or a take returns for it has the counts of the
instance at that time, cut to 32 bits: they are those the sample was stored with if and only if the
counts of the instance have not changed since, or by multiples of 2^32.
-/
namespace OpenDDS.Guarantees.GenerationCounts
open Library Source Source.ReaderCache Cache SampleRanks

variable {δ : Type} {c c' c₀ c₁ c₂ c₃ : Cache δ} {samples samples' : Nat → List Nat} {qos : Qos}
  {msg : Message δ} {event : Event δ} {handle a : Nat} {s : InstanceState}

theorem told_alive (data : msg.isNotice = false) : (told qos msg s).2.instanceState = .alive := by
  rw [told_data data]
  rfl

theorem told_counts (h : msg.isNotice = true ∨ s.instanceState = .alive) :
    (told qos msg s).2.counts = s.counts := by
  unfold told
  split
  · rcases s.disposeWasReceived_cases qos.lifecycle msg.pub msg.isOwner with
      ⟨heq, -⟩ | ⟨-, -, pending, timer, heq⟩
    · rw [heq]
      rfl
    · rw [heq]
      rfl
  · unfold InstanceState.unregisterWasReceived
    rcases s.withdraw_cases qos.lifecycle msg.pub with ⟨heq, -⟩ | ⟨-, -, -, pending, timer, heq⟩
    · rw [heq]
      rfl
    · rw [heq]
      rfl
  · rename_i hdispose hunregister
    have halive : s.instanceState = .alive := by
      apply h.resolve_left
      simp only [Message.isNotice, Bool.or_eq_true, decide_eq_true_eq]
      exact not_or.mpr ⟨hdispose, hunregister⟩
    unfold InstanceState.dataWasReceived InstanceState.counts InstanceState.cancelRelease
    simp [halive]

/-- A sample that was not held before has the counts of its instance. -/
def NewCounts (msg : Message δ) (a : Nat) (c : Cache δ) (samples : Nat → List Nat) : Prop :=
  ∀ handle inst, c.getHandleInstance handle = some inst → a ∈ samples handle →
    c.counts a = inst.instanceState.counts ∧
      (msg.isNotice = true ∨ inst.instanceState.instanceState = .alive) ∧
      msg.messageId ≠ .instanceRegistration ∧ msg.messageId ≠ .datawriterLiveliness

theorem newCounts_drop (inv : NewCounts msg a c samples) (stays : Stays c c')
    (sub : ∀ h, (samples' h).Sublist (samples h)) : NewCounts msg a c' samples' := by
  intro h inst' hinst' ha
  obtain ⟨inst, hinst, hcalm⟩ := stays.states h inst' hinst'
  rw [stays.counts, hcalm.counts, hcalm.kind]
  exact inv h inst hinst ((sub h).subset ha)

theorem newCounts_keeps (qos : Qos) (msg : Message δ) (a : Nat) :
    Keeps (NewCounts msg a) qos msg where
  drops inv stays sub := newCounts_drop inv stays sub
  enters w inv _ unused := by
    intro h inst hinst ha
    by_cases hh : h = msg.newHandle
    · rw [hh, w.vacant _ unused] at ha
      cases ha
    · rw [getHandleInstance_withInstance unused, if_neg hh] at hinst
      exact inv h inst hinst ha
  registers hid _ _ _ _ inv found := by
    intro h inst' hinst' ha
    rw [getHandleInstance_setInstance found] at hinst'
    split at hinst'
    · rename_i hh
      exact absurd hid (inv h _ (hh ▸ found) ha).2.2.1
    · exact absurd hid (inv h inst' hinst' ha).2.2.1
  enlivens hid _ _ inv := by
    intro h inst' hinst' ha
    unfold livelyAll at hinst'
    rw [getHandleInstance_restateAll fun state => state.lively msg.pub] at hinst'
    obtain ⟨inst, hinst, -⟩ := Option.map_eq_some_iff.mp hinst'
    exact absurd hid (inv h inst hinst ha).2.2.2
  stores {c c' samples handle ptr inst} inv queues := by
    intro h inst' hinst' ha
    obtain ⟨list, empty, hfound'⟩ := queues.found'
    have halive : msg.isNotice = true ∨
        (told qos msg inst.instanceState).2.instanceState = .alive := by
      cases hnotice : msg.isNotice with
      | true => exact .inl rfl
      | false => exact .inr (told_alive hnotice)
    by_cases hh : h = handle
    · subst hh
      rw [Function.update_self] at ha
      cases hfound'.symm.trans hinst'
      have hin := (inserted_perm qos (timestamps c msg ptr) ptr (samples h)).mem_iff.mp ha
      rcases List.mem_cons.mp hin with rfl | hold
      · refine ⟨?_, halive, queues.unregistered, queues.owns.stored⟩
        unfold Cache.counts
        rw [queues.element]
        rfl
      · obtain ⟨hcounts, hkind, hid⟩ := inv h inst queues.found hold
        have hne : a ≠ ptr := fun heq => queues.off h (heq ▸ hold)
        refine ⟨?_, halive, hid⟩
        unfold Cache.counts at hcounts ⊢
        rw [queues.touches.elements a hne, hcounts]
        exact (told_counts hkind).symm
    · rw [Function.update_of_ne hh] at ha
      rw [queues.touches.others h hh] at hinst'
      obtain ⟨hcounts, hrest⟩ := inv h inst' hinst' ha
      have hne : a ≠ ptr := fun heq => queues.off h (heq ▸ ha)
      refine ⟨?_, hrest⟩
      unfold Cache.counts at hcounts ⊢
      rw [queues.touches.elements a hne]
      exact hcounts

section

variable (w : Wf c samples) (h : Happens qos c event c')
include w h

theorem not_stored (unreceived : ∀ msg, event ≠ .received msg) (off : ∀ i, a ∉ samples i) :
    ∀ i, a ∉ c'.held i := by
  have hkeeps : ∃ samples', Wf c' samples' ∧ ∀ i, a ∉ samples' i := by
    apply happens_keeps (I := fun _ samples => ∀ i, a ∉ samples i) _ _ _ w off h
    · intro _ _ _ _ hoff _ hsub i hin
      exact hoff i ((hsub i).subset hin)
    · intro msg hmsg
      exact absurd hmsg (unreceived msg)
    · intro _ _ hoff
      exact hoff
  obtain ⟨samples', w', hoff⟩ := hkeeps
  intro i hin
  exact hoff i (held_eq w' i ▸ hin)

theorem stored_counts {inst : SubscriptionInstance} (new : ∀ i, a ∉ c.held i)
    (held : a ∈ c'.held handle) (found : c'.getHandleInstance handle = some inst) :
    c'.counts a = inst.instanceState.counts := by
  have hnone : ∀ i, a ∉ samples i := fun i hin => new i ((held_eq w i).symm ▸ hin)
  by_cases hreceived : ∃ msg, event = .received msg
  · obtain ⟨msg, rfl⟩ := hreceived
    have hbase : NewCounts msg a c samples := fun i _ _ hin => absurd hin (hnone i)
    obtain ⟨samples', w', hinv⟩ := dataReceived_keeps (newCounts_keeps qos msg a) w hbase
      (h.1.fresh w) h.2
    exact (hinv handle inst found (held_eq w' handle ▸ held)).1
  · exact absurd held (not_stored w h (fun msg hmsg => hreceived ⟨msg, hmsg⟩) hnone handle)

theorem held_counts (held : a ∈ c.held handle) : c'.counts a = c.counts a := by
  have hin : a ∈ samples handle := held_eq w handle ▸ held
  have hkeeps : ∃ samples', Wf c' samples' ∧ c'.counts a = c.counts a := by
    apply happens_keeps (I := fun c' _ => c'.counts a = c.counts a) _ _ _ w rfl h
    · intro _ _ _ _ hsame hstays _
      exact (hstays.counts a).trans hsame
    · rintro msg rfl
      have hfresh := h.1.fresh w
      constructor
      · intro _ _ _ _ hsame hstays _
        exact (hstays.counts a).trans hsame
      · intro _ _ _ hsame _ _
        exact hsame
      · intro _ _ _ _ _ hsame _
        exact hsame
      · intro _ _ _ hsame
        exact hsame
      · intro _ _ _ _ ptr _ hsame hqueues
        have hne : a ≠ ptr := by
          intro heq
          rcases hqueues.owns.element with hptr | hptr
          · exact hfresh.element handle (hptr ▸ heq ▸ hin)
          · exact hfresh.second handle (hptr ▸ heq ▸ hin)
        unfold Cache.counts at hsame ⊢
        rw [hqueues.touches.elements a hne]
        exact hsame
    · intro _ _ hsame
      exact hsame
  exact hkeeps.choose_spec.2

end

theorem happens_wf (w : ∃ samples, Wf c samples) (h : Happens qos c event c') :
    ∃ samples, Wf c' samples := by
  obtain ⟨samples, w⟩ := w
  have hkeeps : ∃ samples', Wf c' samples' ∧ True := by
    apply happens_keeps (I := fun _ _ => True) _ _ _ w trivial h
    · intros
      trivial
    · intro msg _
      constructor <;> intros <;> trivial
    · intros
      trivial
  obtain ⟨samples', w', -⟩ := hkeeps
  exact ⟨samples', w'⟩

theorem run_wf (blank : Blank c₀) {events : List (Event δ)}
    (run : Run c₀ (Happens qos) events c) : ∃ samples, Wf c samples := by
  refine run.invariant (fun c => ∃ samples, Wf c samples) ?_ fun _ _ _ => happens_wf
  obtain ⟨samples, w, -⟩ := blank.grown
  exact ⟨samples, w⟩

/-- Whatever happens to a reader, its keys lead to instances and their lists are linked; a sample is
on one list and once, and none that was freed is on any. -/
theorem cache_in_order (blank : Blank c₀) {events : List (Event δ)}
    (run : Run c₀ (Happens qos) events c) : Wf c c.held := by
  obtain ⟨samples, w⟩ := run_wf blank run
  have hheld : c.held = samples := funext (held_eq w)
  rwa [hheld]

theorem cache_in_order_revived : Wf (sampled 1) (sampled 1).held := by
  obtain ⟨events, run⟩ := sampled_run 1
  exact cache_in_order nothing_blank run

/-- A step in which a sample stays on the list of an instance. -/
def HappensHolding (qos : Qos) (handle a : Nat) (c : Cache δ) (event : Event δ) (c' : Cache δ) :
    Prop :=
  Happens qos c event c' ∧ a ∈ c'.held handle

theorem run_counts (w : ∃ samples, Wf c₂ samples) (held : a ∈ c₂.held handle)
    {after : List (Event δ)} (run : Run c₂ (HappensHolding qos handle a) after c₃) :
    (∃ samples, Wf c₃ samples) ∧ a ∈ c₃.held handle ∧ c₃.counts a = c₂.counts a := by
  refine run.invariant (fun c => (∃ samples, Wf c samples) ∧ a ∈ c.held handle ∧
    c.counts a = c₂.counts a) ⟨w, held, rfl⟩ ?_
  rintro c event c' ⟨hwf, hheld, hsame⟩ ⟨h, hheld'⟩
  obtain ⟨samples, w⟩ := hwf
  exact ⟨happens_wf ⟨samples, w⟩ h, hheld', (held_counts w h hheld).trans hsame⟩

/-- The step by which a sample gets on the list of an instance, whose state is `state` then. -/
structure StoredBy (qos : Qos) (c : Cache δ) (event : Event δ) (c' : Cache δ) (handle a : Nat)
    (state : InstanceState) : Prop where
  happens : Happens qos c event c'
  new : ∀ i, a ∉ c.held i
  held : a ∈ c'.held handle
  found : ∃ list, c'.getHandleInstance handle = some ⟨state, list⟩

/-- An info has the counts of an instance. -/
def Reports (info : SampleInfo) (state : InstanceState) : Prop :=
  info.disposedGenerationCount = toLong state.disposedGenerationCount ∧
    info.noWritersGenerationCount = toLong state.noWritersGenerationCount

/-- The counts of two states agree in 32 bits. -/
def SameCounts (state state' : InstanceState) : Prop :=
  state.disposedGenerationCount % 2 ^ 32 = state'.disposedGenerationCount % 2 ^ 32 ∧
    state.noWritersGenerationCount % 2 ^ 32 = state'.noWritersGenerationCount % 2 ^ 32

theorem toLong_eq_iff {m n : Nat} : toLong m = toLong n ↔ m % 2 ^ 32 = n % 2 ^ 32 := by
  unfold toLong
  rw [Int.bmod_def, Int.bmod_def]
  omega

theorem reports_sampleInfo {info : SampleInfo} {de : ReceivedDataElement δ}
    {rank rank' rank'' : Int}
    (h : info = { sampleInfo s de with
      sampleRank := rank
      generationRank := rank'
      absoluteGenerationRank := rank'' }) : Reports info s := by
  constructor
  · rw [h, sampleInfo]
  · rw [h, sampleInfo]

theorem Reports.iff {info : SampleInfo} {state : InstanceState} (h : Reports info state) :
    Reports info s ↔ SameCounts state s := by
  have hdisposed := h.1
  have hnoWriters := h.2
  unfold Reports SameCounts
  rw [hdisposed, hnoWriters]
  exact and_congr toLong_eq_iff toLong_eq_iff

/-- The info of a sample that is read or taken has the counts of its instance at that time, which
are those at the time when it was stored as long as they agree. -/
theorem counts_reported {before after : List (Event δ)} {state : InstanceState} (blank : Blank c₀)
    (run : Run c₀ (Happens qos) before c₁) (stored : StoredBy qos c₁ event c₂ handle a state)
    (later : Run c₂ (HappensHolding qos handle a) after c₃) {oper : ReaderCache.Operation}
    {req : Request δ} {masks : Masks} {handles : List Nat} {output : Output δ}
    (nodup : handles.Nodup) (known : ∀ h ∈ handles, (c₃.getHandleInstance h).isSome)
    (access : c₃.rake oper req masks handles = .ok (output, c)) :
    c₃.counts a = state.counts ∧
    ∃ results state', c₃.gather req masks handles = .ok results ∧
      (∃ list, c₃.getHandleInstance handle = some ⟨state', list⟩) ∧
      ∀ (i : Nat) (rd : RakeData), (chosen req results)[i]? = some rd → rd.rde = a →
        ∃ info, output.infoSeq[i]? = some info ∧ Reports info state' ∧
          (Reports info state ↔ SameCounts state' state) := by
  obtain ⟨samples₁, w₁⟩ := run_wf blank run
  obtain ⟨list₂, hfound₂⟩ := stored.found
  have hstored := stored_counts w₁ stored.happens stored.new stored.held hfound₂
  obtain ⟨⟨samples, w⟩, hheld, hsame⟩ :=
    run_counts (happens_wf ⟨samples₁, w₁⟩ stored.happens) stored.held later
  have hin : a ∈ samples handle := held_eq w handle ▸ hheld
  obtain ⟨results, hgather, -, hselected, rfl, -⟩ := rake_summary w nodup known access
  obtain ⟨inst, -, hinst, -⟩ := w.owner hin
  refine ⟨hsame.trans hstored, results, inst.instanceState, hgather, ⟨_, hinst⟩, ?_⟩
  intro i rd hrd hrde
  have hsi : rd.si = handle :=
    w.apart.unique (hselected.own rd (List.mem_of_getElem? hrd)) (hrde ▸ hin)
  obtain ⟨info, inst', -, -, hinfo, hinst', hall, -⟩ := summary_ranks req.zeroCopy w hselected hrd
  rw [hsi, hinst] at hinst'
  cases hinst'
  have hreports := reports_sampleInfo hall
  exact ⟨info, hinfo, hreports, hreports.iff⟩

open HistoryDepth (messageAt)

def keepThree : Qos := { keepTwo with historyDepth := 3 }

def oneSample : Cache Nat := (nothing.dataReceived keepThree (sampleAt 10)).toOption.getD nothing

def disposed : Cache Nat :=
  (oneSample.dataReceived keepThree (messageAt .disposeInstance 11)).toOption.getD nothing

def reborn : Cache Nat := (disposed.dataReceived keepThree (sampleAt 12)).toOption.getD nothing

def firstState : InstanceState :=
  { (InstanceState.create 10 false).dataWasReceived 1 with empty := false }

theorem first_stored :
    StoredBy keepThree nothing (.received (sampleAt 10)) oneSample 10 10 firstState where
  happens := ⟨⟨rfl, rfl, rfl, by decide⟩, rfl⟩
  new i hin := by
    obtain ⟨samples, w, -⟩ := nothing_blank.grown
    exact absurd (w.live i 10 (held_eq w i ▸ hin)) (by decide)
  held := by decide
  found := ⟨_, rfl⟩

theorem reborn_run : Run oneSample (HappensHolding keepThree 10 10)
    [.received (messageAt .disposeInstance 11), .received (sampleAt 12)] reborn := by
  have hdisposed : HappensHolding keepThree 10 10 oneSample
      (.received (messageAt .disposeInstance 11)) disposed :=
    ⟨⟨⟨rfl, rfl, rfl, by decide⟩, rfl⟩, by decide⟩
  have hreborn : HappensHolding keepThree 10 10 disposed (.received (sampleAt 12)) reborn :=
    ⟨⟨⟨rfl, rfl, rfl, by decide⟩, rfl⟩, by decide⟩
  exact (Run.start.next hdisposed).next hreborn

theorem reborn_gathers : ∃ results, reborn.gather anySample anyState [10] = .ok results ∧
    ((chosen anySample results)[0]?).map RakeData.rde = some 10 := by
  have hgather : (reborn.gather anySample anyState [10]).map
      (fun results => ((chosen anySample results)[0]?).map RakeData.rde) = .ok (some 10) := by
    decide +kernel
  exact Folds.map_eq_ok hgather

theorem reborn_read : ∃ output c', reborn.rake .read anySample anyState [10] = .ok (output, c') ∧
    (output.infoSeq[0]?).map SampleInfo.disposedGenerationCount = some 1 := by
  have hread : (reborn.rake .read anySample anyState [10]).map
      (fun result => (result.1.infoSeq[0]?).map SampleInfo.disposedGenerationCount) =
        .ok (some 1) := by
    decide +kernel
  obtain ⟨⟨output, c'⟩, hok, hcount⟩ := Folds.map_eq_ok hread
  exact ⟨output, c', hok, hcount⟩

theorem counts_reported_reborn : ∃ (output : Output Nat) (c' : Cache Nat),
    reborn.rake .read anySample anyState [10] = .ok (output, c') ∧
      reborn.counts 10 = firstState.counts ∧
      ∃ results state', reborn.gather anySample anyState [10] = .ok results ∧
        (∃ list, reborn.getHandleInstance 10 = some ⟨state', list⟩) ∧
        ∀ (i : Nat) (rd : RakeData), (chosen anySample results)[i]? = some rd → rd.rde = 10 →
          ∃ info, output.infoSeq[i]? = some info ∧ Reports info state' ∧
            (Reports info firstState ↔ SameCounts state' firstState) := by
  obtain ⟨output, c', hread, -⟩ := reborn_read
  exact ⟨output, c', hread, counts_reported nothing_blank .start first_stored reborn_run
    (by decide) (by decide) hread⟩

/-- The first sample is reported with a disposed generation count of 1, although its instance had
never been disposed when it was stored. -/
theorem rebirth_reported : ¬ ∀ (qos : Qos) (c₀ c₁ c₂ c₃ c : Cache Nat)
    (before after : List (Event Nat)) (event : Event Nat) (handle a : Nat) (state : InstanceState)
    (oper : ReaderCache.Operation) (req : Request Nat) (masks : Masks) (handles : List Nat)
    (output : Output Nat) (results : Results), Blank c₀ → Run c₀ (Happens qos) before c₁ →
    StoredBy qos c₁ event c₂ handle a state → Run c₂ (HappensHolding qos handle a) after c₃ →
    handles.Nodup → (∀ h ∈ handles, (c₃.getHandleInstance h).isSome) →
    c₃.rake oper req masks handles = .ok (output, c) → c₃.gather req masks handles = .ok results →
    ∀ (i : Nat) (rd : RakeData), (chosen req results)[i]? = some rd → rd.rde = a →
      ∃ info, output.infoSeq[i]? = some info ∧ Reports info state := by
  intro hclaim
  obtain ⟨results, hgather, hfirst⟩ := reborn_gathers
  obtain ⟨rd, hrd, hrde⟩ := Option.map_eq_some_iff.mp hfirst
  obtain ⟨output, c', hread, hcount⟩ := reborn_read
  obtain ⟨info, hinfo, hreports⟩ := hclaim keepThree nothing nothing oneSample reborn c' [] _ _ 10
    10 firstState .read anySample anyState [10] output results nothing_blank .start first_stored
    reborn_run (by decide) (by decide) hread hgather 0 rd hrd hrde
  rw [hinfo, Option.map_some, hreports.1] at hcount
  exact absurd hcount (by decide)

end OpenDDS.Guarantees.GenerationCounts
