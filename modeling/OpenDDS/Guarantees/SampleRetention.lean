import OpenDDS.Guarantees.SampleRanks

/-!
# Accepted samples are retained

For every cache in order and every data message that `store_instance_data` neither filters nor
rejects, with order by reception and a depth of at least 1: the sample is at the end of the list of
its instance afterwards, and nothing else has changed, if and only if making room for it does not
take a sample from an empty list and does not empty the list of an instance without writers whose
release is pending. Such an instance is released in the middle of the store.
-/
namespace OpenDDS.Guarantees.SampleRetention
open Library.AssociationList Source.ReaderCache Cache

variable {δ : Type} {c c' : Cache δ} {samples : Nat → List Nat} {qos : Qos} {msg : Message δ}
  {handle : Nat}

/-- The message is neither filtered nor rejected by one of the limits. -/
structure Accepted (c : Cache δ) (samples : Nat → List Nat) (qos : Qos) (msg : Message δ) :
    Prop where
  unfiltered : msg.filtered = false
  instances : c.instanceMap.lookup msg.key = none → ¬ Full c qos
  samples : ¬ Rejects c qos msg (ownSamples c samples msg)

/-- The sample is at the end of the list of its instance, and the others are as before. -/
structure Retained (c c' : Cache δ) (msg : Message δ) (handle : Nat) : Prop where
  key : c'.instanceMap.lookup msg.key = some handle
  found : (c'.getHandleInstance handle).isSome
  last : (c'.held handle).getLast? = some msg.newElement
  element : ∃ state, c'.element msg.newElement = newSample state msg
  live : 0 < c'.refCount msg.newElement
  keys : ∀ key, key ≠ msg.key → c'.instanceMap.lookup key = c.instanceMap.lookup key
  others : ∀ h, h ≠ handle → c'.getHandleInstance h = c.getHandleInstance h ∧
    c'.held h = c.held h ∧ ∀ a ∈ c.held h, c'.element a = c.element a

def Retains (c : Cache δ) (msg : Message δ) (run : Except Fault (Stored × Cache δ)) : Prop :=
  ∃ stored c' handle, run = .ok (stored, c') ∧ stored.instancePtr = some handle ∧
    Retained c c' msg handle

/-- Where a limit is reached, the instance of the message has a sample to give, and it is not a
last one whose removal releases the instance. -/
def Spared (c : Cache δ) (samples : Nat → List Nat) (qos : Qos) (msg : Message δ) : Prop :=
  Limited c qos msg (ownSamples c samples msg) → ownSamples c samples msg ≠ [] ∧
    ¬ ((ownSamples c samples msg).length = 1 ∧ (ownState c qos msg).releasePending = true ∧
      (ownState c qos msg).writers = ∅)

theorem storeHazard_iff (reception : qos.bySourceTimestamp = false)
    (accepted : Accepted c samples qos msg) :
    StoreHazard c qos msg (ownState c qos msg) (ownSamples c samples msg) ↔
      ¬ Spared c samples qos msg := by
  unfold Spared
  constructor
  · intro hazard hspared
    cases hazard with
    | noSample limited none => exact (hspared limited).1 none
    | lostInstance loses =>
      obtain ⟨limited, x, hx, -, hrelease⟩ := loses
      exact (hspared limited).2 ⟨by rw [hx]; rfl, hrelease⟩
    | takenSample _ _ isTaken => cases isTaken
    | lostSample _ loses =>
      obtain ⟨-, hsource, -⟩ := loses
      rw [reception] at hsource
      cases hsource
  · intro hspared
    push Not at hspared
    obtain ⟨limited, hgives⟩ := hspared
    by_cases hnone : ownSamples c samples msg = []
    · exact .noSample limited hnone
    · obtain ⟨hlength, hrelease⟩ := hgives hnone
      obtain ⟨x, hx⟩ := List.length_eq_one_iff.mp hlength
      have hread : (c.element x).sampleState ≠ .notRead := by
        intro hnot
        exact accepted.samples ⟨limited, x, by rw [hx]; rfl, hnot⟩
      exact .lostInstance ⟨limited, x, hx, read_of_ne_notRead hread, hrelease⟩

theorem enter_keys {just : Bool} {c₁ : Cache δ} (h : c.enter qos msg = (.entered handle just, c₁)) :
    ∀ key, key ≠ msg.key → c₁.instanceMap.lookup key = c.instanceMap.lookup key := by
  intro key hkey
  unfold enter at h
  cases hknown : c.instanceMap.lookup msg.key with
  | some known =>
    rw [hknown] at h
    cases h
    rfl
  | none =>
    rw [hknown] at h
    dsimp only at h
    by_cases hnotice : msg.isNotice = true
    · rw [if_pos hnotice] at h
      cases h
    · rw [if_neg hnotice] at h
      split at h
      · cases h
      · cases h
        obtain ⟨as, bs, hmap, hinsert⟩ := insertKey_eq msg.key msg.newHandle c.instanceMap
        rw [hinsert, lookup_insert as bs (hmap ▸ hknown), if_neg hkey, hmap]

theorem kept_getLast (deep : 0 < qos.depth) (reception : qos.bySourceTimestamp = false) (ptr : Nat)
    (xs : List Nat) : (kept qos msg (queued c qos msg ptr xs)).getLast? = some ptr := by
  have hqueued : queued c qos msg ptr xs = xs ++ [ptr] := by
    unfold queued inserted
    rw [reception, if_neg Bool.false_ne_true]
  unfold kept
  by_cases htrims : Trims qos msg (queued c qos msg ptr xs)
  · have hlong := (trims_queued.mp htrims).2
    rw [if_pos htrims, hqueued]
    cases xs with
    | nil =>
      simp at hlong
      omega
    | cons x xs => simp
  · rw [if_neg htrims, hqueued, List.getLast?_append]
    rfl

theorem retained (w : Wf c samples) (fresh : Unused c samples msg) (deep : 0 < qos.depth)
    (reception : qos.bySourceTimestamp = false) {just : Bool} {c₁ : Cache δ}
    (henter : c.enter qos msg = (.entered handle just, c₁))
    (h : Entered c c₁ samples qos msg handle)
    (stored : DataStored c₁ c' samples qos msg (ownState c qos msg) handle msg.newElement) :
    Retained c c' msg handle := by
  have hlast : (c'.held handle).getLast? = some msg.newElement := by
    rw [held_eq stored.wf, Function.update_self]
    exact kept_getLast deep reception _ _
  have hmem : msg.newElement ∈ c'.held handle := List.mem_of_getLast? hlast
  rw [held_eq stored.wf] at hmem
  constructor
  · rw [stored.touches.map]
    exact h.key
  · obtain ⟨list, empty, hfound⟩ := stored.found
    rw [hfound]
    rfl
  · exact hlast
  · exact ⟨_, stored.element⟩
  · exact stored.wf.live handle _ hmem
  · intro key hkey
    rw [stored.touches.map]
    exact enter_keys henter key hkey
  · intro i hi
    refine ⟨(stored.touches.others i hi).trans (h.others i hi), ?_, ?_⟩
    · rw [held_eq stored.wf, Function.update_of_ne hi, held_eq w]
    · intro a ha
      rw [held_eq w] at ha
      rw [stored.touches.elements a fun heq => fresh.element i (heq ▸ ha), h.element]

/-- An accepted sample is retained if and only if room is made without harm. -/
theorem sample_retained_iff (w : Wf c samples) (fresh : Unused c samples msg)
    (deep : 0 < qos.depth) (reception : qos.bySourceTimestamp = false)
    (kind : msg.messageId = .sampleData) (accepted : Accepted c samples qos msg) :
    Retains c msg (c.storeInstanceData qos msg msg.newElement) ↔ Spared c samples qos msg := by
  have hnotice : msg.isNotice = false := by simp [Message.isNotice, kind]
  have hunregistered : msg.messageId ≠ .instanceRegistration := by simp [kind]
  have hunfiltered : ¬ (msg.messageId = .sampleData ∧ msg.filtered = true) := by
    simp [accepted.unfiltered]
  have hentered : ¬ Unentered c qos msg := by
    rintro ⟨hkey, hrefused⟩
    rcases hrefused with hrefused | hfull
    · rw [hnotice] at hrefused
      cases hrefused
    · exact accepted.instances hkey hfull
  obtain ⟨handle, just, c₁, henter, h⟩ := enter_entered w fresh hentered
  obtain ⟨inst, hfound, hstate⟩ := h.found
  have hstore := storeInstanceData_entered msg.newElement false henter hunregistered hunfiltered
  constructor
  · rintro ⟨stored, c', handle', hok, -⟩
    by_contra hspared
    have hazard := (storeHazard_iff reception accepted).mpr hspared
    rw [← hstate, ← h.list, ← h.storeHazard_iff] at hazard
    obtain ⟨fault, herror, -⟩ := storeAt_hazard h.wf hfound fresh.element deep hazard
    rw [hstore, herror] at hok
    cases hok
  · intro hspared
    have hsafe := mt (storeHazard_iff reception accepted).mp (not_not_intro hspared)
    rw [← hstate, ← h.list, ← h.storeHazard_iff] at hsafe
    rcases storeAt_data h.wf hfound fresh.element deep hnotice hsafe with
      ⟨hrejects, -⟩ | ⟨-, c', hok, hdata⟩
    · exact absurd (h.list ▸ h.rejects_iff.mp hrejects) accepted.samples
    · rw [hok] at hstore
      rw [hstate] at hdata
      exact ⟨_, c', handle, hstore, rfl, retained w fresh deep reception henter h hdata⟩

open SampleRanks (Happens nothing nothing_blank sampleAt anySample anyState)

def oneEach : Qos := { SampleRanks.keepTwo with maxSamplesPerInstance := 1 }

theorem sample_retained_first :
    Retains nothing (sampleAt 10) (nothing.storeInstanceData oneEach (sampleAt 10) 10) := by
  obtain ⟨samples, w, -⟩ := nothing_blank.grown
  have hunused : Unused nothing samples (sampleAt 10) := by
    refine ⟨rfl, ?_⟩
    intro h hin
    exact absurd (w.live h _ hin) (by decide)
  have hfree : ¬ Limited nothing oneEach (sampleAt 10) (ownSamples nothing samples (sampleAt 10)) := by
    show ¬ Limited nothing oneEach (sampleAt 10) []
    decide
  have haccepted : Accepted nothing samples oneEach (sampleAt 10) :=
    ⟨rfl, fun _ => by decide, fun h => hfree h.1⟩
  exact (sample_retained_iff w hunused (by decide) rfl rfl haccepted).mpr fun h => absurd h hfree

/-- What a reader has after a sample that was read and whose writer has died. -/
def orphaned : Cache Nat :=
  ((((nothing.dataReceived oneEach (sampleAt 10)).toOption.getD nothing).readI anySample
    anyState).toOption.map Prod.snd).getD nothing |>.instancesLivelinessUpdate oneEach 1

theorem orphaned_run : ∃ events, Library.Run nothing (Happens oneEach) events orphaned := by
  have hreceived : Library.Run nothing (Happens oneEach) [.received (sampleAt 10)]
      ((nothing.dataReceived oneEach (sampleAt 10)).toOption.getD nothing) :=
    .next .start ⟨⟨rfl, rfl, rfl, by decide⟩, rfl⟩
  have hread : Library.Run nothing (Happens oneEach)
      [.received (sampleAt 10), .accessed .read anySample anyState [10]]
      (((((nothing.dataReceived oneEach (sampleAt 10)).toOption.getD nothing).readI anySample
        anyState).toOption.map Prod.snd).getD nothing) :=
    hreceived.next ⟨by decide, by decide, _, rfl⟩
  have hdead : Happens oneEach _ (.writerDead 1) orphaned := rfl
  exact ⟨_, hread.next hdead⟩

/-- The next sample of the instance is accepted, and room for it is made by releasing the
instance. -/
theorem instance_released_midway : ∃ (c : Cache Nat) (samples : Nat → List Nat) (qos : Qos)
    (msg : Message Nat), Wf c samples ∧ Unused c samples msg ∧ 0 < qos.depth ∧
      qos.bySourceTimestamp = false ∧ msg.messageId = .sampleData ∧ Accepted c samples qos msg ∧
      c.storeInstanceData qos msg msg.newElement = .error .releasedInstance ∧
      ¬ Retains c msg (c.storeInstanceData qos msg msg.newElement) := by
  obtain ⟨events, hrun⟩ := orphaned_run
  obtain ⟨samples, w, -⟩ := SampleRanks.run_grown rfl nothing_blank hrun
  have hlist : samples 10 = [10] := (held_eq w 10).symm
  have hunused : Unused orphaned samples (sampleAt 11) := by
    refine ⟨rfl, ?_⟩
    intro h hin
    exact absurd (w.live h _ hin) (by decide)
  have haccepted : Accepted orphaned samples oneEach (sampleAt 11) := by
    refine ⟨rfl, fun hnone => absurd hnone (by decide), ?_⟩
    rintro ⟨-, x, hhead, hnot⟩
    have hx : [10].head? = some x := hlist ▸ hhead
    obtain rfl := Option.some.inj hx
    exact absurd hnot (by decide)
  have herror : orphaned.storeInstanceData oneEach (sampleAt 11) 11 = .error .releasedInstance := rfl
  refine ⟨orphaned, samples, oneEach, sampleAt 11, w, hunused, by decide, rfl, rfl, haccepted,
    herror, ?_⟩
  rintro ⟨stored, c', handle, hok, -⟩
  exact absurd (herror.symm.trans hok) (by simp)

end OpenDDS.Guarantees.SampleRetention
