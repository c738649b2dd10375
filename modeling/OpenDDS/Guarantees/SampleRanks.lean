import OpenDDS.Guarantees.HistoryDepth
import OpenDDS.Source.RakeRanks

/-!
# The ranks in the sample infos

For every cache that a reader ordering by reception can have, however its messages, accesses, loans,
dead writers and released instances follow each other, and for every selection and order of the
results: the sample rank of a sample is the number of samples of its instance behind it, and its two
generation ranks are the generations between its reception and that of the most recent sample of its
instance, among those returned and on the list of the instance. The counts are cut to 32 bits for
the user, so that this is so as long as an instance has had fewer than 2^31 generations.
-/
namespace OpenDDS.Guarantees.SampleRanks
open Library Source Source.ReaderCache Cache

variable {δ : Type} {c c' c₀ : Cache δ} {samples : Nat → List Nat} {qos : Qos} {req : Request δ}
  {masks : Masks} {handles : List Nat}

inductive Event (δ : Type) where
  | received (msg : Message δ)
  | accessed (oper : ReaderCache.Operation) (req : Request δ) (masks : Masks) (handles : List Nat)
  | returned (item : Nat)
  | writerDead (writer : Nat)
  | released (handle : Nat)

structure Allocates (c : Cache δ) (msg : Message δ) : Prop where
  handle : c.getHandleInstance msg.newHandle = none
  element : c.refCount msg.newElement = 0
  second : c.refCount msg.secondElement = 0
  distinct : msg.secondElement ≠ msg.newElement

/-- One step of a reader: a message, a read or take of some of the instances, the return of a loan
(whose reference is not that of a list), a writer that has died, and the release of an instance. -/
def Happens (qos : Qos) (c : Cache δ) (event : Event δ) (c' : Cache δ) : Prop :=
  match event with
  | .received msg => Allocates c msg ∧ c.dataReceived qos msg = .ok c'
  | .accessed oper req masks handles => handles.Nodup ∧
      (∀ h ∈ handles, (c.getHandleInstance h).isSome) ∧
      ∃ output, c.rake oper req masks handles = .ok (output, c')
  | .returned item => (∀ h, item ∈ c.held h → 1 < c.refCount item) ∧ c' = c.decRefDataElement item
  | .writerDead writer => c' = c.instancesLivelinessUpdate qos writer
  | .released handle => c' = c.releaseInstance handle

/-- A cache in order, with samples that came one generation after the other. -/
def Grown (c : Cache δ) : Prop := ∃ samples, Wf c samples ∧ Aged c samples

theorem Allocates.fresh {msg : Message δ} (h : Allocates c msg) (w : Wf c samples) :
    Fresh c samples msg := by
  have hoff : ∀ a, c.refCount a = 0 → ∀ i, a ∉ samples i := by
    intro a ha i hin
    have hlive := w.live i a hin
    omega
  exact ⟨⟨h.handle, hoff _ h.element⟩, hoff _ h.second, h.distinct⟩

theorem happens_keeps {I : Cache δ → (Nat → List Nat) → Prop} {event : Event δ}
    (drops : ∀ {c c' : Cache δ} {samples samples' : Nat → List Nat}, I c samples → Stays c c' →
      (∀ h, (samples' h).Sublist (samples h)) → I c' samples')
    (keeps : ∀ msg, event = .received msg → Keeps I qos msg)
    (dead : ∀ writer, event = .writerDead writer → I c samples →
      I (c.instancesLivelinessUpdate qos writer) samples)
    (w : Wf c samples) (inv : I c samples) (h : Happens qos c event c') :
    ∃ samples', Wf c' samples' ∧ I c' samples' := by
  have hfollow : Drops c samples c' → ∃ samples', Wf c' samples' ∧ I c' samples' := by
    rintro ⟨hstays, samples', hw, hsub⟩
    exact ⟨samples', hw, drops inv hstays hsub⟩
  cases event with
  | received msg => exact dataReceived_keeps (keeps msg rfl) w inv (h.1.fresh w) h.2
  | accessed oper req masks handles =>
    obtain ⟨hnodup, hfound, output, hrake⟩ := h
    exact hfollow (rake_drops w hnodup hfound hrake)
  | returned item =>
    obtain ⟨hlent, rfl⟩ := h
    apply hfollow
    apply decRef_drops w
    intro h hin
    exact hlent h ((held_eq w h).symm ▸ hin)
  | writerDead writer =>
    obtain rfl := h
    exact ⟨samples, w.restateAll fun state => state.writerBecameDead qos.lifecycle writer,
      dead writer rfl inv⟩
  | released handle =>
    obtain rfl := h
    exact hfollow (releaseInstance_drops w handle)

theorem Grown.step {event : Event δ} (reception : qos.bySourceTimestamp = false) (grown : Grown c)
    (h : Happens qos c event c') : Grown c' := by
  obtain ⟨samples, w, aged⟩ := grown
  apply happens_keeps (fun aged stays sub => aged.drop stays sub)
    (fun msg _ => aged_keeps reception msg) _ w aged h
  intro writer _ aged
  exact aged.restateAll fun state =>
    Nat.le_of_eq (writerBecameDead_generations state qos.lifecycle writer).symm

structure Blank (c : Cache δ) : Prop where
  map : c.instanceMap = []
  instances : c.instances = []

theorem Blank.grown (h : Blank c) : Grown c := by
  have hnone : ∀ handle, c.getHandleInstance handle = none := by
    intro handle
    unfold getHandleInstance
    rw [h.instances]
    rfl
  refine ⟨fun _ => [], ⟨?_, ?_, ?_, fun _ _ => rfl, ?_, ?_⟩, fun _ => List.Pairwise.nil, ?_⟩
  · intro entry hentry
    rw [h.map] at hentry
    cases hentry
  · rw [h.map]
    exact List.nodup_nil
  · intro handle inst hinst
    rw [hnone] at hinst
    cases hinst
  · exact ⟨fun _ => List.nodup_nil, fun hi => nomatch hi⟩
  · intro handle a ha
    cases ha
  · intro handle inst hinst a ha
    cases ha

theorem run_grown (reception : qos.bySourceTimestamp = false) (blank : Blank c₀)
    {events : List (Event δ)} (run : Run c₀ (Happens qos) events c) : Grown c :=
  run.invariant Grown blank.grown fun _ _ _ grown h => grown.step reception h

/-- The ranks of the sample at place `i` of those that are returned. -/
structure Ranked (c : Cache δ) (returned : List RakeData) (i : Nat) (rd : RakeData)
    (info : SampleInfo) : Prop where
  sampleRank : info.sampleRank =
    ((returned.drop (i + 1)).filter fun other => other.si = rd.si).length
  generationRank : ∃ newest ∈ returned, newest.si = rd.si ∧
    (∀ other ∈ returned, other.si = rd.si →
      (c.held rd.si).idxOf other.rde ≤ (c.held rd.si).idxOf newest.rde) ∧
    info.generationRank = (c.generations newest.rde : Int) - c.generations rd.rde
  absoluteGenerationRank : ∃ last, (c.held rd.si).getLast? = some last ∧
    info.absoluteGenerationRank = (c.generations last : Int) - c.generations rd.rde
  nonneg : 0 ≤ info.sampleRank ∧ 0 ≤ info.generationRank ∧ 0 ≤ info.absoluteGenerationRank

/-- The generations of an instance fit into 32 bits. -/
def FewGenerations (c : Cache δ) (handle : Nat) : Prop :=
  ∀ last, (c.held handle).getLast? = some last → c.generations last < 2 ^ 31

theorem toLong_small {n : Nat} (h : n < 2 ^ 31) : toLong n = n := by
  unfold toLong
  rw [Int.bmod_def]
  omega

theorem pairwise_idxOf {R : Nat → Nat → Prop} {xs : List Nat} {a b : Nat} (pairwise : xs.Pairwise R)
    (refl : R a a) (ha : a ∈ xs) (hb : b ∈ xs) (le : xs.idxOf a ≤ xs.idxOf b) : R a b := by
  rcases Nat.eq_or_lt_of_le le with heq | hlt
  · rw [← (List.idxOf_inj ha).mp heq]
    exact refl
  · have hla := List.idxOf_lt_length_of_mem ha
    have hlb := List.idxOf_lt_length_of_mem hb
    have h := List.pairwise_iff_getElem.mp pairwise _ _ hla hlb hlt
    rwa [List.getElem_idxOf, List.getElem_idxOf] at h

theorem numbered_getElem? {handle : Nat} {rd : RakeData} (h : rd ∈ c.numbered masks handle) :
    rd.si = handle ∧ 1 ≤ rd.indexInInstance ∧
      (c.admitted masks handle)[rd.indexInInstance - 1]? = some rd.rde := by
  obtain ⟨n, hn, rfl⟩ := List.mem_map.mp h
  exact ⟨rfl, List.mem_zipIdx_iff_le_and_getElem?_sub.mp hn⟩

theorem numbered_order (w : Wf c samples) {handle : Nat} {a b : RakeData}
    (ha : a ∈ c.numbered masks handle) (hb : b ∈ c.numbered masks handle)
    (le : a.indexInInstance ≤ b.indexInInstance) :
    (samples handle).idxOf a.rde ≤ (samples handle).idxOf b.rde := by
  obtain ⟨-, hapos, ha'⟩ := numbered_getElem? ha
  obtain ⟨-, hbpos, hb'⟩ := numbered_getElem? hb
  have hnodup := w.apart.nodup handle
  have hplaces : (samples handle).Pairwise fun x y =>
      (samples handle).idxOf x ≤ (samples handle).idxOf y := by
    rw [List.pairwise_iff_getElem]
    intro i j hi hj hij
    rw [hnodup.idxOf_getElem i hi, hnodup.idxOf_getElem j hj]
    exact Nat.le_of_lt hij
  have hadmitted := hplaces.sublist (admitted_sublist w masks handle)
  obtain ⟨hla, hea⟩ := List.getElem?_eq_some_iff.mp ha'
  obtain ⟨hlb, heb⟩ := List.getElem?_eq_some_iff.mp hb'
  rcases Nat.eq_or_lt_of_le le with heq | hlt
  · have hsame : a.rde = b.rde := by
      rw [heq, hb'] at ha'
      exact (Option.some.inj ha').symm
    rw [hsame]
  · have h := List.pairwise_iff_getElem.mp hadmitted _ _ hla hlb (by omega)
    rwa [hea, heb] at h

theorem chosen_numbered {rd : RakeData}
    (h : rd ∈ (c.inOrder req (c.matching req masks handles)).take req.limit) :
    rd ∈ c.numbered masks rd.si := by
  have hmatching := (inOrder_perm _).mem_iff.mp (List.mem_of_mem_take h)
  obtain ⟨handle, -, hrd⟩ := List.mem_flatMap.mp (List.mem_filter.mp hmatching).1
  rwa [(numbered_getElem? hrd).1]

theorem toLong_counts {a : Nat} (few : c.generations a < 2 ^ 31) :
    toLong (c.element a).disposedGenerationCount + toLong (c.element a).noWritersGenerationCount =
      (c.generations a : Int) := by
  unfold Cache.generations at few ⊢
  rw [toLong_small (by omega), toLong_small (by omega)]
  omega

theorem infoSeq_length (zeroCopy : Bool) {returned : List RakeData} (w : Wf c samples)
    (selected : Selected samples returned) :
    (summary c samples zeroCopy returned).output.infoSeq.length = returned.length := by
  have hnoted := summary_noted zeroCopy w selected
  rw [← hnoted.length]
  unfold Rake.output
  generalize (summary c samples zeroCopy returned).infoSeq = infoSeq
  induction (summary c samples zeroCopy returned).instMap generalizing infoSeq with
  | nil => rfl
  | cons entry entries ih =>
    rw [List.foldl_cons, ih]
    exact List.length_mapIdx

theorem rake_ranked {oper : ReaderCache.Operation} {output : Output δ} (w : Wf c samples)
    (aged : Aged c samples) (nodup : handles.Nodup)
    (found : ∀ h ∈ handles, (c.getHandleInstance h).isSome)
    (h : c.rake oper req masks handles = .ok (output, c')) :
    ∃ results, c.gather req masks handles = .ok results ∧
      output.infoSeq.length = (chosen req results).length ∧
      ∀ i rd, (chosen req results)[i]? = some rd → ∃ info, output.infoSeq[i]? = some info ∧
        (FewGenerations c rd.si → Ranked c (chosen req results) i rd info) := by
  obtain ⟨results, hgather', htotal, hselected, rfl, -⟩ := rake_summary w nodup found h
  have hchosen : ∀ rd ∈ chosen req results, rd ∈ c.numbered masks rd.si := by
    intro rd hrd
    have hresults := gather_eq w found htotal
    rw [hgather'] at hresults
    cases hresults
    rw [chosen_collected] at hrd
    exact chosen_numbered hrd
  refine ⟨results, hgather', infoSeq_length req.zeroCopy w hselected, ?_⟩
  intro i rd hrd
  obtain ⟨info, -, newest, last, hinfo, -, -, hnewest, hsi, hgreatest, hlast, hsample, hgeneration,
    habsolute⟩ := summary_ranks req.zeroCopy w hselected hrd
  refine ⟨info, hinfo, ?_⟩
  intro hfew
  have hheld := held_eq w rd.si
  have hlastFew : c.generations last < 2 ^ 31 := hfew last (hheld.symm ▸ hlast)
  have hrdIn := hselected.own rd (List.mem_of_getElem? hrd)
  have hnewestIn : newest.rde ∈ samples rd.si := hsi ▸ hselected.own newest hnewest
  have hafter : ∀ other ∈ chosen req results, other.si = rd.si →
      (samples rd.si).idxOf other.rde ≤ (samples rd.si).idxOf newest.rde := by
    intro other hother hother_si
    have hnumbered := hchosen other hother
    have hnumbered' := hchosen newest hnewest
    rw [hother_si] at hnumbered
    rw [hsi] at hnumbered'
    exact numbered_order w hnumbered hnumbered' (hgreatest other hother hother_si)
  have hascending := aged.ascending rd.si
  have hlatest : ∀ a ∈ samples rd.si, c.generations a ≤ c.generations last := by
    intro a ha
    have hne := List.ne_nil_of_mem ha
    rw [List.getLast?_eq_some_getLast hne] at hlast
    rw [← Option.some.inj hlast]
    exact hascending.rel_getLast_of_rel_getLast_getLast ha (Nat.le_refl _)
  have hle : c.generations rd.rde ≤ c.generations newest.rde :=
    pairwise_idxOf (R := fun a b => c.generations a ≤ c.generations b) hascending (Nat.le_refl _)
      hrdIn hnewestIn (hafter rd (List.mem_of_getElem? hrd) rfl)
  have hleLast := hlatest rd.rde hrdIn
  have hnewestLast := hlatest newest.rde hnewestIn
  rw [toLong_counts (Nat.lt_of_le_of_lt hnewestLast hlastFew),
    toLong_small (Nat.lt_of_le_of_lt hleLast hlastFew)] at hgeneration
  rw [toLong_counts hlastFew, toLong_small (Nat.lt_of_le_of_lt hleLast hlastFew)] at habsolute
  refine ⟨hsample, ⟨newest, hnewest, hsi, ?_, hgeneration⟩, ⟨last, hheld ▸ hlast, habsolute⟩, ?_⟩
  · rw [hheld]
    exact hafter
  · omega

/-- In every cache that is reached, the ranks that a read or a take returns for an instance of fewer
than 2^31 generations are those of the samples. -/
theorem ranks_follow (reception : qos.bySourceTimestamp = false) (blank : Blank c₀)
    {events : List (Event δ)} (run : Run c₀ (Happens qos) events c) {output : Output δ}
    (h : c.readI req masks = .ok (output, c') ∨ c.takeI req masks = .ok (output, c')) :
    ∃ results, c.gather req masks (c.instanceMap.map Prod.snd) = .ok results ∧
      output.infoSeq.length = (chosen req results).length ∧
      ∀ i rd, (chosen req results)[i]? = some rd → ∃ info, output.infoSeq[i]? = some info ∧
        (FewGenerations c rd.si → Ranked c (chosen req results) i rd info) := by
  obtain ⟨samples, w, aged⟩ := run_grown reception blank run
  rcases h with hread | htake
  · exact rake_ranked w aged w.distinct w.found hread
  · exact rake_ranked w aged w.distinct w.found htake

def keepTwo : Qos := { HistoryDepth.keepLast with historyDepth := 2 }

/-- The state of an instance that has lost its only writer and got it back `n` times. -/
def revivedState (n : Nat) : InstanceState :=
  { (InstanceState.create 10 false).dataWasReceived 1 with
    empty := false
    noWritersGenerationCount := n }

def nothing : Cache Nat := HistoryDepth.nothing.cache

theorem nothing_blank : Blank nothing := ⟨rfl, rfl⟩

def sampleAt (address : Nat) : Message Nat := HistoryDepth.messageAt .sampleData address

def lively : Message Nat := HistoryDepth.messageAt .datawriterLiveliness 12

/-- The cache with one sample of an instance that was revived `n` times since. -/
def revived (n : Nat) : Cache Nat :=
  { (nothing.dataReceived keepTwo (sampleAt 10)).toOption.getD nothing with
    instances := [(10, ⟨revivedState n, ⟨some 10, some 10, 1⟩⟩)] }

theorem revived_run (n : Nat) : ∃ events, Run nothing (Happens keepTwo) events (revived n) := by
  induction n with
  | zero =>
    refine ⟨[.received (sampleAt 10)], .next .start ⟨⟨rfl, rfl, rfl, by decide⟩, rfl⟩⟩
  | succ n ih =>
    obtain ⟨events, hrun⟩ := ih
    have hdead : Run nothing (Happens keepTwo) (events ++ [.writerDead 1])
        ((revived n).instancesLivelinessUpdate keepTwo 1) := hrun.next rfl
    have hlively : Happens keepTwo ((revived n).instancesLivelinessUpdate keepTwo 1)
        (.received lively) (revived (n + 1)) := ⟨⟨rfl, rfl, rfl, by decide⟩, rfl⟩
    exact ⟨_, hdead.next hlively⟩

def sampled (n : Nat) : Cache Nat :=
  ((revived n).dataReceived keepTwo (sampleAt 11)).toOption.getD (revived n)

theorem sampled_run (n : Nat) : ∃ events, Run nothing (Happens keepTwo) events (sampled n) := by
  obtain ⟨events, hrun⟩ := revived_run n
  have hsample : Happens keepTwo (revived n) (.received (sampleAt 11)) (sampled n) :=
    ⟨⟨rfl, rfl, rfl, by decide⟩, rfl⟩
  exact ⟨_, hrun.next hsample⟩

def anySample : Request Nat := ⟨lengthUnlimited, false, none, false⟩

def anyState : Masks := ⟨0xffff, 0xffff, 0xffff⟩

example : ((sampled 3).readI anySample anyState).map
    (fun result => result.1.infoSeq.map (·.absoluteGenerationRank)) = .ok [3, 0] := by
  decide +kernel

/-- A read of two samples of an instance that was revived in between. -/
theorem ranks_follow_revived : ∃ (output : Output Nat) (c' : Cache Nat) (results : Results),
    (sampled 1).readI anySample anyState = .ok (output, c') ∧
    (sampled 1).gather anySample anyState ((sampled 1).instanceMap.map Prod.snd) = .ok results ∧
    output.infoSeq.length = (chosen anySample results).length ∧
    ∀ (i : Nat) (rd : RakeData), (chosen anySample results)[i]? = some rd →
      ∃ info, output.infoSeq[i]? = some info ∧ (FewGenerations (sampled 1) rd.si →
        Ranked (sampled 1) (chosen anySample results) i rd info) := by
  obtain ⟨events, hrun⟩ := sampled_run 1
  have hread : ((sampled 1).readI anySample anyState).map
      (fun result => result.1.infoSeq.length) = .ok 2 := by
    decide +kernel
  obtain ⟨⟨output, c'⟩, hok, -⟩ := Folds.map_eq_ok hread
  obtain ⟨results, hresults⟩ := ranks_follow rfl nothing_blank hrun (.inl hok)
  exact ⟨output, c', results, hok, hresults⟩

/-- After 2^31 revivals the rank of the first of two samples is negative. -/
theorem negative_rank : ¬ ∀ (qos : Qos) (c₀ c c' : Cache Nat) (events : List (Event Nat))
    (req : Request Nat) (masks : Masks) (output : Output Nat), qos.bySourceTimestamp = false →
    Blank c₀ → Run c₀ (Happens qos) events c → c.readI req masks = .ok (output, c') →
    ∀ info ∈ output.infoSeq, 0 ≤ info.absoluteGenerationRank := by
  intro hclaim
  obtain ⟨events, hrun⟩ := sampled_run (2 ^ 31)
  have hread : ((sampled (2 ^ 31)).readI anySample anyState).map
      (fun result => result.1.infoSeq.map (·.absoluteGenerationRank)) = .ok [-2 ^ 31, 0] := by
    decide +kernel
  obtain ⟨⟨output, c'⟩, hok, hranks⟩ := Folds.map_eq_ok hread
  have hinfo : (-2 ^ 31 : Int) ∈ output.infoSeq.map (·.absoluteGenerationRank) := by
    rw [hranks]
    exact List.mem_cons_self
  obtain ⟨info, hin, hrank⟩ := List.mem_map.mp hinfo
  have hnonneg := hclaim keepTwo nothing _ c' events anySample anyState output rfl nothing_blank hrun
    hok info hin
  rw [hrank] at hnonneg
  exact absurd hnonneg (by decide)

end OpenDDS.Guarantees.SampleRanks
