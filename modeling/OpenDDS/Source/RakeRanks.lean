import OpenDDS.Source.CacheKeeps

/-!
# The generations of the samples

A sample has the generation counts that its instance had when it was received. Where samples are
ordered by reception, the sums of the counts ascend along the list of an instance and end at most at
that of the instance itself: no operation on the cache lowers the sum of an instance or touches
that of a sample, and a new sample gets the sum of its instance and the end of its list.
-/
namespace OpenDDS.Source

def InstanceState.generations (state : InstanceState) : Nat :=
  state.disposedGenerationCount + state.noWritersGenerationCount

theorem InstanceState.Calm.generations {s s' : InstanceState} (h : s.Calm s') :
    s'.generations = s.generations := by
  obtain ⟨hdisposed, hnoWriters⟩ := Prod.mk.inj h.counts
  unfold InstanceState.generations
  rw [hdisposed, hnoWriters]

namespace ReaderCache
open Library.AssociationList SampleLinks Cache

variable {δ : Type} {c c' : Cache δ} {samples samples' : Nat → List Nat} {handle ptr : Nat}
  {inst : SubscriptionInstance} {qos : Qos} {msg : Message δ}

namespace Cache

def generations (c : Cache δ) (a : Nat) : Nat :=
  (c.element a).disposedGenerationCount + (c.element a).noWritersGenerationCount

end Cache

theorem Stays.generations (h : Stays c c') (a : Nat) : c'.generations a = c.generations a := by
  obtain ⟨hdisposed, hnoWriters⟩ := Prod.mk.inj (h.counts a)
  unfold Cache.generations
  rw [hdisposed, hnoWriters]

structure Aged (c : Cache δ) (samples : Nat → List Nat) : Prop where
  ascending : ∀ handle, (samples handle).Pairwise fun a b => c.generations a ≤ c.generations b
  bounded : ∀ handle inst, c.getHandleInstance handle = some inst → ∀ a ∈ samples handle,
    c.generations a ≤ inst.instanceState.generations

theorem Aged.later (aged : Aged c samples) (elements : ∀ a, c'.generations a = c.generations a)
    (states : ∀ h inst', c'.getHandleInstance h = some inst' → ∃ inst,
      c.getHandleInstance h = some inst ∧
        inst.instanceState.generations ≤ inst'.instanceState.generations)
    (sub : ∀ h, (samples' h).Sublist (samples h)) : Aged c' samples' where
  ascending h := by
    simp only [elements]
    exact (aged.ascending h).sublist (sub h)
  bounded h inst' hinst' a ha := by
    obtain ⟨inst, hinst, hle⟩ := states h inst' hinst'
    rw [elements]
    exact Nat.le_trans (aged.bounded h inst hinst a ((sub h).subset ha)) hle

theorem Aged.drop (aged : Aged c samples) (stays : Stays c c')
    (sub : ∀ h, (samples' h).Sublist (samples h)) : Aged c' samples' := by
  apply aged.later stays.generations _ sub
  intro h inst' hinst'
  obtain ⟨inst, hinst, hcalm⟩ := stays.states h inst' hinst'
  exact ⟨inst, hinst, Nat.le_of_eq hcalm.generations.symm⟩

theorem Aged.restate {state : InstanceState} (aged : Aged c samples)
    (found : c.getHandleInstance handle = some inst)
    (le : inst.instanceState.generations ≤ state.generations) :
    Aged (c.setInstance handle { inst with instanceState := state }) samples := by
  refine aged.later ?_ ?_ fun _ => List.Sublist.refl _
  · intro a
    rfl
  intro h inst' hinst'
  rw [getHandleInstance_setInstance found] at hinst'
  split at hinst'
  · rename_i hh
    cases hinst'
    exact ⟨inst, hh ▸ found, le⟩
  · exact ⟨inst', hinst', Nat.le_refl _⟩

theorem Aged.restateAll {f : InstanceState → InstanceState} (aged : Aged c samples)
    (le : ∀ state, state.generations ≤ (f state).generations) :
    Aged { c with instances := c.instances.map fun entry =>
      (entry.1, { entry.2 with instanceState := f entry.2.instanceState }) } samples := by
  refine aged.later ?_ ?_ fun _ => List.Sublist.refl _
  · intro a
    rfl
  intro h inst' hinst'
  rw [getHandleInstance_restateAll] at hinst'
  obtain ⟨inst, hinst, rfl⟩ := Option.map_eq_some_iff.mp hinst'
  exact ⟨inst, hinst, le _⟩

theorem Aged.add {inst' : SubscriptionInstance} (aged : Aged c samples)
    (found : c.getHandleInstance handle = some inst) (off : ∀ h, ptr ∉ samples h)
    (touches : Touches c c' handle ptr) (found' : c'.getHandleInstance handle = some inst')
    (le : inst.instanceState.generations ≤ inst'.instanceState.generations)
    (new : c'.generations ptr = inst'.instanceState.generations) :
    Aged c' (Function.update samples handle (samples handle ++ [ptr])) := by
  have hold : ∀ h, ∀ a ∈ samples h, c'.generations a = c.generations a := by
    intro h a ha
    have hne : a ≠ ptr := fun heq => off h (heq ▸ ha)
    unfold Cache.generations
    rw [touches.elements a hne]
  have hown : (samples handle).Pairwise fun a b => c'.generations a ≤ c'.generations b := by
    apply (aged.ascending handle).imp_of_mem
    intro a b ha hb hle
    rw [hold handle a ha, hold handle b hb]
    exact hle
  constructor
  · intro h
    by_cases hh : h = handle
    · rw [hh, Function.update_self, List.pairwise_append]
      refine ⟨hown, List.pairwise_singleton _ _, ?_⟩
      intro a ha b hb
      rw [List.mem_singleton.mp hb, new, hold handle a ha]
      exact Nat.le_trans (aged.bounded handle inst found a ha) le
    · rw [Function.update_of_ne hh]
      apply (aged.ascending h).imp_of_mem
      intro a b ha hb hle
      rw [hold h a ha, hold h b hb]
      exact hle
  · intro h i hi a ha
    by_cases hh : h = handle
    · subst hh
      rw [Function.update_self] at ha
      rw [found'] at hi
      cases hi
      rcases List.mem_append.mp ha with hin | hin
      · rw [hold h a hin]
        exact Nat.le_trans (aged.bounded h inst found a hin) le
      · rw [List.mem_singleton.mp hin, new]
    · rw [Function.update_of_ne hh] at ha
      rw [touches.others h hh] at hi
      rw [hold h a ha]
      exact aged.bounded h i hi a ha

theorem told_generations (qos : Qos) (msg : Message δ) (state : InstanceState) :
    state.generations ≤ (told qos msg state).2.generations := by
  unfold told
  split
  · rcases state.disposeWasReceived_cases qos.lifecycle msg.pub msg.isOwner with
      ⟨heq, -⟩ | ⟨-, -, pending, timer, heq⟩
    · rw [heq]
      exact Nat.le_refl _
    · rw [heq]
      exact Nat.le_refl _
  · unfold InstanceState.unregisterWasReceived
    rcases state.withdraw_cases qos.lifecycle msg.pub with ⟨heq, -⟩ | ⟨-, -, -, pending, timer, heq⟩
    · rw [heq]
      exact Nat.le_refl _
    · rw [heq]
      exact Nat.le_refl _
  · have hdisposed : state.disposedGenerationCount ≤
        (state.dataWasReceived msg.pub).disposedGenerationCount := by
      unfold InstanceState.dataWasReceived
      split
      · exact Nat.le_succ _
      · exact Nat.le_refl _
    have hnoWriters : state.noWritersGenerationCount ≤
        (state.dataWasReceived msg.pub).noWritersGenerationCount := by
      unfold InstanceState.dataWasReceived
      dsimp only
      split
      · exact Nat.le_succ _
      · exact Nat.le_refl _
    exact Nat.add_le_add hdisposed hnoWriters

theorem lively_generations (state : InstanceState) (writer : Nat) :
    state.generations ≤ (state.lively writer).generations := by
  unfold InstanceState.lively
  split
  · exact Nat.add_le_add_left (Nat.le_succ _) _
  · exact Nat.le_refl _

theorem writerBecameDead_generations (state : InstanceState) (qos : ReaderDataLifecycle)
    (writer : Nat) : (state.writerBecameDead qos writer).generations = state.generations := by
  unfold InstanceState.writerBecameDead
  rcases state.withdraw_cases qos writer with ⟨heq, -⟩ | ⟨-, -, -, pending, timer, heq⟩
  · rw [heq]
    rfl
  · rw [heq]
    rfl

theorem aged_keeps (reception : qos.bySourceTimestamp = false) (msg : Message δ) :
    Keeps Aged qos msg where
  drops aged stays sub := aged.drop stays sub
  enters w aged _ unused := by
    refine ⟨aged.ascending, ?_⟩
    intro h inst hinst a ha
    by_cases hh : h = msg.newHandle
    · rw [hh, w.vacant _ unused] at ha
      cases ha
    · rw [getHandleInstance_withInstance unused, if_neg hh] at hinst
      exact aged.bounded h inst hinst a ha
  registers _ _ _ _ _ aged found := aged.restate found (lively_generations _ _)
  enlivens _ _ _ aged := aged.restateAll fun state => lively_generations state msg.pub
  stores aged queues := by
    obtain ⟨list, empty, hfound'⟩ := queues.found'
    have hqueued : ∀ (c : Cache δ) ptr xs, queued c qos msg ptr xs = xs ++ [ptr] := by
      intro c ptr xs
      unfold queued inserted
      rw [reception, if_neg Bool.false_ne_true]
    rw [hqueued]
    apply aged.add queues.found queues.off queues.touches hfound' (told_generations qos msg _)
    unfold Cache.generations
    rw [queues.element]
    rfl

end ReaderCache

end OpenDDS.Source

/-!
# The ranks of the samples

What the loops of `copy_into` write into the three ranks of each sample: how many samples of its
instance come behind it, and the generations between it and two others, the sample of its instance
with the greatest index among those that are returned and the last on the list of its instance.
-/
namespace OpenDDS.Source.ReaderCache
open Library.AssociationList Cache

variable {δ : Type} {c : Cache δ} {samples : Nat → List Nat} {handle i : Nat} {rd : RakeData}
  {done chosen : List RakeData} {zeroCopy : Bool} {id : InstanceData} {infoSeq : List SampleInfo}
  {entries : List (Nat × InstanceData)}

def positions (done : List RakeData) (handle : Nat) : List Nat :=
  (done.zipIdx.filter fun n => n.1.si = handle).map Prod.snd

theorem positions_concat (done : List RakeData) (rd : RakeData) (handle : Nat) :
    positions (done ++ [rd]) handle =
      if rd.si = handle then positions done handle ++ [done.length] else positions done handle := by
  unfold positions
  rw [List.zipIdx_append, List.filter_append, List.map_append]
  by_cases hsi : rd.si = handle
  · simp [hsi]
  · simp [hsi]

theorem mem_positions : i ∈ positions done handle ↔ ∃ rd, done[i]? = some rd ∧ rd.si = handle := by
  unfold positions
  constructor
  · intro hin
    obtain ⟨n, hn, rfl⟩ := List.mem_map.mp hin
    obtain ⟨hmem, hsi⟩ := List.mem_filter.mp hn
    exact ⟨n.1, List.mem_zipIdx_iff_getElem?.mp hmem, by simpa using hsi⟩
  · rintro ⟨rd, hrd, hsi⟩
    refine List.mem_map.mpr ⟨(rd, i), List.mem_filter.mpr ⟨?_, by simpa using hsi⟩, rfl⟩
    exact List.mem_zipIdx_iff_getElem?.mpr hrd

/-- How many samples of the instance of a sample come behind it. -/
def behind (chosen : List RakeData) (i : Nat) (handle : Nat) : Nat :=
  ((chosen.drop (i + 1)).filter fun rd => rd.si = handle).length

theorem positions_rank (hi : i ∈ positions done handle) :
    (positions done handle).length =
      (positions done handle).idxOf i + 1 + behind done i handle := by
  induction done using List.reverseRecOn with
  | nil => cases hi
  | append_singleton done rd ih =>
    have hlength : ∀ j ∈ positions done handle, j < done.length := by
      intro j hj
      obtain ⟨other, hother, -⟩ := mem_positions.mp hj
      exact (List.getElem?_eq_some_iff.mp hother).1
    have hbehind : i ∈ positions done handle → behind (done ++ [rd]) i handle =
        behind done i handle + if rd.si = handle then 1 else 0 := by
      intro hold
      have hlt := hlength i hold
      unfold behind
      rw [List.drop_append_of_le_length (by omega), List.filter_append, List.length_append,
        List.filter_singleton]
      by_cases hsi : rd.si = handle
      · simp [hsi]
      · simp [hsi]
    rw [positions_concat] at hi ⊢
    by_cases hsi : rd.si = handle
    · rw [if_pos hsi] at hi ⊢
      by_cases hold : i ∈ positions done handle
      · rw [List.length_append, List.length_singleton, List.idxOf_append_of_mem hold, hbehind hold,
          if_pos hsi, ih hold]
        omega
      · have hlast : i = done.length := by
          rcases List.mem_append.mp hi with hin | hin
          · exact absurd hin hold
          · exact List.mem_singleton.mp hin
        have hnone : behind (done ++ [rd]) i handle = 0 := by
          unfold behind
          rw [hlast, List.drop_eq_nil_of_le (by simp)]
          rfl
        rw [List.length_append, List.length_singleton, List.idxOf_append_of_notMem hold, hnone, hlast]
        simp
    · rw [if_neg hsi] at hi ⊢
      have hrank := ih hi
      rw [hbehind hi, if_neg hsi]
      omega

/-- The ranks of one sample. -/
def InstanceData.ranked (id : InstanceData) (idx : Nat) (si : SampleInfo) : SampleInfo :=
  { si with
    sampleRank := id.sampleinfoPositions.length - 1 - id.sampleinfoPositions.idxOf idx
    generationRank := id.mrsicDisposedGc + id.mrsicNowritersGc - si.generationRank
    absoluteGenerationRank := id.mrsDisposedGc + id.mrsNowritersGc - si.absoluteGenerationRank }

theorem rank_getElem? (id : InstanceData) (infoSeq : List SampleInfo) (i : Nat) :
    (id.rank infoSeq)[i]? =
      if i ∈ id.sampleinfoPositions then infoSeq[i]?.map (id.ranked i) else infoSeq[i]? := by
  unfold InstanceData.rank
  rw [List.getElem?_mapIdx]
  split
  · cases infoSeq[i]? with
    | none => rfl
    | some si => simp [InstanceData.ranked]
  · cases infoSeq[i]? with
    | none => rfl
    | some si => simp

theorem ranks_other (h : ∀ entry ∈ entries, i ∉ entry.2.sampleinfoPositions) :
    (entries.foldl (fun infoSeq entry => entry.2.rank infoSeq) infoSeq)[i]? = infoSeq[i]? := by
  induction entries generalizing infoSeq with
  | nil => rfl
  | cons entry entries ih =>
    rw [List.foldl_cons, ih fun other hother => h other (List.mem_cons_of_mem entry hother),
      rank_getElem?, if_neg (h entry List.mem_cons_self)]

theorem ranks_own {entry : Nat × InstanceData} (hentry : entry ∈ entries)
    (own : i ∈ entry.2.sampleinfoPositions)
    (unique : entries.Pairwise fun a b => i ∈ a.2.sampleinfoPositions →
      i ∉ b.2.sampleinfoPositions) :
    (entries.foldl (fun infoSeq entry => entry.2.rank infoSeq) infoSeq)[i]? =
      infoSeq[i]?.map (entry.2.ranked i) := by
  induction entries generalizing infoSeq with
  | nil => cases hentry
  | cons first entries ih =>
    rw [List.pairwise_cons] at unique
    rw [List.foldl_cons]
    rcases List.mem_cons.mp hentry with rfl | hin
    · rw [ranks_other fun other hother => unique.1 other hother own, rank_getElem?, if_pos own]
    · have hfirst : i ∉ first.2.sampleinfoPositions := fun hi => unique.1 entry hin hi own
      rw [ih hin unique.2, rank_getElem?, if_neg hfirst]

/-- What is noted of an instance: the places of its samples, the one with the greatest index and the
last on its list. -/
structure NotedInstance (c : Cache δ) (samples : Nat → List Nat) (done : List RakeData)
    (handle : Nat) (id : InstanceData) : Prop where
  positions : id.sampleinfoPositions = positions done handle
  newest : ∃ rd ∈ done, rd.si = handle ∧ rd.indexInInstance = id.mrsicIndex ∧
    id.mrsicDisposedGc = toLong (c.element rd.rde).disposedGenerationCount ∧
    id.mrsicNowritersGc = toLong (c.element rd.rde).noWritersGenerationCount
  greatest : ∀ rd ∈ done, rd.si = handle → rd.indexInInstance ≤ id.mrsicIndex
  last : ∃ a, (samples handle).getLast? = some a ∧
    id.mrsDisposedGc = toLong (c.element a).disposedGenerationCount ∧
    id.mrsNowritersGc = toLong (c.element a).noWritersGenerationCount

structure Noted (c : Cache δ) (samples : Nat → List Nat) (done : List RakeData) (r : Rake δ) :
    Prop where
  length : r.infoSeq.length = done.length
  saved : ∀ (i : Nat) (rd : RakeData), done[i]? = some rd → ∃ inst,
    c.getHandleInstance rd.si = some inst ∧
    r.infoSeq[i]? = some (sampleInfo inst.instanceState (c.element rd.rde))
  keys : (r.instMap.map Prod.fst).Nodup
  known : ∀ rd ∈ done, (r.instMap.lookup rd.si).isSome
  instances : ∀ handle id, r.instMap.lookup handle = some id →
    NotedInstance c samples done handle id

theorem NotedInstance.note (state : InstanceState) {mrs : Nat} {seen : Option InstanceData}
    (last : (samples rd.si).getLast? = some mrs)
    (noted : ∀ id, seen = some id → NotedInstance c samples done rd.si id)
    (first : seen = none → ∀ other ∈ done, other.si ≠ rd.si) :
    NotedInstance c samples (done ++ [rd]) rd.si
      ((seen.getD (.start (c.element mrs))).note state (c.element rd.rde) rd.indexInInstance
        done.length) := by
  cases seen with
  | none =>
    have hnew := first rfl
    have hnone : ReaderCache.positions done rd.si = [] := by
      apply List.eq_nil_iff_forall_not_mem.mpr
      intro j hj
      obtain ⟨other, hother, hsi⟩ := mem_positions.mp hj
      exact hnew other (List.mem_of_getElem? hother) hsi
    refine ⟨?_, ⟨rd, by simp, rfl, ?_, ?_, ?_⟩, ?_, ⟨mrs, last, ?_, ?_⟩⟩
    · rw [positions_concat, if_pos rfl, hnone]
      rfl
    · simp only [Option.getD_none, InstanceData.note, InstanceData.start, ge_iff_le, Nat.zero_le,
        if_true]
    · simp only [Option.getD_none, InstanceData.note, InstanceData.start, ge_iff_le, Nat.zero_le,
        if_true]
    · simp only [Option.getD_none, InstanceData.note, InstanceData.start, ge_iff_le, Nat.zero_le,
        if_true]
    · intro other hother hsi
      rcases List.mem_append.mp hother with hin | hin
      · exact absurd hsi (hnew other hin)
      · rw [List.mem_singleton.mp hin]
        simp only [Option.getD_none, InstanceData.note, InstanceData.start, ge_iff_le,
          Nat.zero_le, if_true, Nat.le_refl]
    · simp only [Option.getD_none, InstanceData.note, InstanceData.start]
    · simp only [Option.getD_none, InstanceData.note, InstanceData.start]
  | some id =>
    have hid := noted id rfl
    obtain ⟨newest, hnewest, hsi, hindex, hdisposed, hnoWriters⟩ := hid.newest
    have hpositions : (id.note state (c.element rd.rde) rd.indexInInstance
        done.length).sampleinfoPositions = ReaderCache.positions (done ++ [rd]) rd.si := by
      rw [positions_concat, if_pos rfl, ← hid.positions]
      rfl
    by_cases hge : rd.indexInInstance ≥ id.mrsicIndex
    · refine ⟨hpositions, ⟨rd, by simp, rfl, ?_, ?_, ?_⟩, ?_, hid.last⟩
      · simp [InstanceData.note, hge]
      · simp [InstanceData.note, hge]
      · simp [InstanceData.note, hge]
      · intro other hother hother_si
        rcases List.mem_append.mp hother with hin | hin
        · have hle := hid.greatest other hin hother_si
          simp only [Option.getD_some, InstanceData.note, if_pos hge]
          omega
        · rw [List.mem_singleton.mp hin]
          simp [InstanceData.note, hge]
    · refine ⟨hpositions, ⟨newest, by simp [hnewest], hsi, ?_, ?_, ?_⟩, ?_, hid.last⟩
      · simp [InstanceData.note, hge, hindex]
      · simp [InstanceData.note, hge, hdisposed]
      · simp [InstanceData.note, hge, hnoWriters]
      · intro other hother hother_si
        simp only [Option.getD_some, InstanceData.note, if_neg hge]
        rcases List.mem_append.mp hother with hin | hin
        · exact hid.greatest other hin hother_si
        · rw [List.mem_singleton.mp hin]
          omega

theorem summary_noted (zeroCopy : Bool) (w : Wf c samples) (selected : Selected samples done) :
    Noted c samples done (summary c samples zeroCopy done) := by
  unfold summary
  induction done using List.reverseRecOn with
  | nil =>
    refine ⟨rfl, ?_, List.nodup_nil, ?_, ?_⟩
    · intro i rd h
      cases h
    · intro rd h
      cases h
    · intro handle id h
      cases h
  | append_singleton done rd ih =>
    obtain ⟨inst, mrs, hfound, hlast⟩ := w.owner (selected.own rd (by simp))
    have hnoted := ih selected.before
    rw [List.foldl_concat, summarize_eq _ hfound hlast]
    generalize done.foldl (summarize c samples zeroCopy) .start = r at hnoted ⊢
    have hfirst : r.instMap.lookup rd.si = none → ∀ other ∈ done, other.si ≠ rd.si := by
      intro hnone other hother hsi
      have hsome := hnoted.known other hother
      rw [hsi, hnone] at hsome
      cases hsome
    have hnote := NotedInstance.note inst.instanceState hlast
      (fun id hid => hnoted.instances rd.si id hid) hfirst
    refine ⟨?_, ?_, ?_, ?_, ?_⟩
    · simp [Rake.record, hnoted.length]
    · intro i other hother
      by_cases hi : i < done.length
      · rw [List.getElem?_append_left hi] at hother
        obtain ⟨seen, hseen, hinfo⟩ := hnoted.saved i other hother
        refine ⟨seen, hseen, ?_⟩
        simp only [Rake.record]
        rw [List.getElem?_append_left (hnoted.length ▸ hi)]
        exact hinfo
      · rw [List.getElem?_append_right (by omega)] at hother
        have hi' : i = done.length := by
          have hlt := (List.getElem?_eq_some_iff.mp hother).1
          simp at hlt
          omega
        rw [hi', Nat.sub_self] at hother
        cases hother
        refine ⟨inst, hfound, ?_⟩
        simp only [Rake.record]
        rw [hi', List.getElem?_append_right (Nat.le_of_eq hnoted.length), hnoted.length, Nat.sub_self]
        rfl
    · refine List.nodup_cons.mpr ⟨?_, hnoted.keys.sublist (List.filter_sublist.map _)⟩
      intro hin
      obtain ⟨entry, hentry, hkey⟩ := List.mem_map.mp hin
      simpa [hkey] using (List.mem_filter.mp hentry).2
    · intro other hother
      rw [record_keys]
      rcases List.mem_append.mp hother with hin | hin
      · exact .inr (hnoted.known other hin)
      · exact .inl (by rw [List.mem_singleton.mp hin])
    · intro handle id hid
      by_cases hh : handle = rd.si
      · subst hh
        simp only [Rake.record, List.lookup_cons_self, Option.some.injEq] at hid
        rw [← hid, hnoted.length]
        exact hnote
      · have hbeq : (handle == rd.si) = false := by simpa using hh
        simp only [Rake.record, List.lookup_cons, hbeq] at hid
        rw [lookup_erase, if_neg hh] at hid
        have hold := hnoted.instances handle id hid
        have hne : rd.si ≠ handle := fun h => hh h.symm
        refine ⟨?_, ?_, ?_, hold.last⟩
        · rw [positions_concat, if_neg hne]
          exact hold.positions
        · obtain ⟨newest, hnewest, hrest⟩ := hold.newest
          exact ⟨newest, by simp [hnewest], hrest⟩
        · intro other hother hsi
          rcases List.mem_append.mp hother with hin | hin
          · exact hold.greatest other hin hsi
          · rw [List.mem_singleton.mp hin] at hsi
            exact absurd hsi hne

theorem summary_ranks (zeroCopy : Bool) (w : Wf c samples) (selected : Selected samples chosen)
    (hrd : chosen[i]? = some rd) :
    ∃ info inst newest last, (summary c samples zeroCopy chosen).output.infoSeq[i]? = some info ∧
      c.getHandleInstance rd.si = some inst ∧
      info = { sampleInfo inst.instanceState (c.element rd.rde) with
        sampleRank := info.sampleRank
        generationRank := info.generationRank
        absoluteGenerationRank := info.absoluteGenerationRank } ∧
      newest ∈ chosen ∧ newest.si = rd.si ∧
      (∀ other ∈ chosen, other.si = rd.si → other.indexInInstance ≤ newest.indexInInstance) ∧
      (samples rd.si).getLast? = some last ∧
      info.sampleRank = behind chosen i rd.si ∧
      info.generationRank = toLong (c.element newest.rde).disposedGenerationCount +
        toLong (c.element newest.rde).noWritersGenerationCount - toLong (c.generations rd.rde) ∧
      info.absoluteGenerationRank = toLong (c.element last).disposedGenerationCount +
        toLong (c.element last).noWritersGenerationCount - toLong (c.generations rd.rde) := by
  have hnoted := summary_noted zeroCopy w selected
  generalize summary c samples zeroCopy chosen = r at hnoted ⊢
  obtain ⟨id, hid⟩ := Option.isSome_iff_exists.mp (hnoted.known rd (List.mem_of_getElem? hrd))
  have hinstance := hnoted.instances rd.si id hid
  have hown : i ∈ positions chosen rd.si := mem_positions.mpr ⟨rd, hrd, rfl⟩
  have hunique : r.instMap.Pairwise fun a b => i ∈ a.2.sampleinfoPositions →
      i ∉ b.2.sampleinfoPositions := by
    have hplace : ∀ entry ∈ r.instMap, i ∈ entry.2.sampleinfoPositions → entry.1 = rd.si := by
      intro entry hentry hi
      have hlookup := (mem_iff_lookup hnoted.keys).mp hentry
      rw [(hnoted.instances entry.1 entry.2 hlookup).positions] at hi
      obtain ⟨other, hother, hsi⟩ := mem_positions.mp hi
      rw [hrd] at hother
      cases hother
      exact hsi.symm
    have hkeys : r.instMap.Pairwise fun a b => a.1 ≠ b.1 := List.pairwise_map.mp hnoted.keys
    apply hkeys.imp_of_mem
    intro a b ha hb hne hia hib
    exact hne ((hplace a ha hia).trans (hplace b hb hib).symm)
  obtain ⟨inst, hinst, hsaved⟩ := hnoted.saved i rd hrd
  obtain ⟨newest, hnewest, hsi, hindex, hdisposed, hnoWriters⟩ := hinstance.newest
  obtain ⟨last, hlast, hlastDisposed, hlastNoWriters⟩ := hinstance.last
  refine ⟨id.ranked i (sampleInfo inst.instanceState (c.element rd.rde)), inst, newest, last, ?_,
    hinst, rfl, hnewest, hsi, ?_, hlast, ?_, ?_, ?_⟩
  · unfold Rake.output
    rw [ranks_own (mem_of_lookup hid) (hinstance.positions ▸ hown) hunique, hsaved]
    rfl
  · intro other hother hother_si
    rw [hindex]
    exact hinstance.greatest other hother hother_si
  · have hrank := positions_rank hown
    unfold InstanceData.ranked
    dsimp only
    rw [hinstance.positions]
    omega
  · unfold InstanceData.ranked sampleInfo Cache.generations
    rw [hdisposed, hnoWriters]
  · unfold InstanceData.ranked sampleInfo Cache.generations
    rw [hlastDisposed, hlastNoWriters]

end OpenDDS.Source.ReaderCache
