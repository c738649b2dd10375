import OpenDDS.Source.CacheReception

/-!
# Storing a received message

For every cache in order and every message, `data_received` uses nothing that is not there
exactly where none of six hazards is given before the message. Four of them belong to
`store_instance_data`: a limit that is reached by the samples of other instances while the
list of this one is empty, a discarded sample that takes its instance along, a sample
that is trimmed as soon as it is queued, and one that is taken while `sample_lock_` is given up
to tell of an unread sample that was trimmed. The deadline watchdog uses the instance of a message
that was refused one, and the loop that drops a rejected coherent set goes on from an instance
that it has released.
-/
namespace OpenDDS.Guarantees.StoreSafety
open Source Source.ReaderCache Cache

variable {δ : Type} {c c' : Cache δ} {samples : Nat → List Nat} {qos : Qos} {msg : Message δ}
  {taken again : Bool}

/-- No empty list is read, nothing is used once it was released, and no instance is used that
a limit has refused. -/
def Safe (result : Except Fault (Cache δ)) : Prop :=
  ∀ fault, result = .error fault → fault = .unknownInstance

/-- A sample or a registration that gets to `store_instance_data`. -/
structure Delivered (msg : Message δ) : Prop where
  kind : msg.messageId = .sampleData ∨ msg.messageId = .instanceRegistration
  passes : ¬ (msg.expired = true ∨ msg.messageId = .sampleData ∧ msg.contentFiltered = true)

/-- The deadline timer of an unknown instance is cancelled, which ends the call. -/
def CancelsUnknown (c : Cache δ) (qos : Qos) (msg : Message δ) : Prop :=
  qos.watchdog = true ∧ qos.exclusive = false ∧ c.instanceMap.lookup msg.key = none

instance : Decidable (CancelsUnknown c qos msg) := inferInstanceAs (Decidable (_ ∧ _ ∧ _))

/-- What goes wrong when a message is received. `taken` and `again` say whether its samples are
taken while a lost sample is told of. -/
inductive Hazard (c : Cache δ) (samples : Nat → List Nat) (qos : Qos) (msg : Message δ)
    (taken again : Bool := false) : Prop
  | sample (delivered : Delivered msg) (data : msg.messageId = .sampleData)
      (unfiltered : msg.filtered = false) (entered : ¬ Unentered c qos msg)
      (hazard : StoreHazard c qos msg (ownState c qos msg) (ownSamples c samples msg) taken)
  | disposeUnregister (kind : msg.messageId = .disposeUnregisterInstance)
      (goesOn : ¬ CancelsUnknown c qos msg) (entered : ¬ Unentered c qos msg)
      (hazard : StoreHazard c qos msg (ownState c qos msg) (ownSamples c samples msg) taken)
  | takenAgain (kind : msg.messageId = .disposeUnregisterInstance)
      (goesOn : ¬ CancelsUnknown c qos msg) (entered : ¬ Unentered c qos msg)
      (stored : ¬ Rejects c qos msg (ownSamples c samples msg))
      (loses : LosesSecond c qos msg (ownSamples c samples msg)) (isTaken : again = true)
  | coherentSample (delivered : Delivered msg)
      (goesOn : Unentered c qos msg ∨ ¬ (msg.messageId = .sampleData ∧ msg.filtered = true))
      (hazard : RejectHazard c samples qos msg)
  | coherentEnd (kind : msg.messageId = .endCoherentChanges) (rejected : msg.verdict = .rejected)
      (handle : Nat) (doomed : Doomed c samples msg.pub msg.publisherId handle)
  | refused (delivered : Delivered msg) (unentered : Unentered c qos msg)
      (watchdog : qos.watchdog = true)

theorem safe_ok {result : Except Fault (Cache δ)} (h : result = .ok c') : Safe result := by
  intro fault herror
  rw [h] at herror
  cases herror

theorem not_safe_error {result : Except Fault (Cache δ)}
    (h : ∃ fault, result = .error fault ∧ fault ≠ .unknownInstance) : ¬ Safe result := by
  obtain ⟨fault, herror, hne⟩ := h
  exact fun hsafe => hne (hsafe fault herror)

theorem hazard_iff (delivered : Delivered msg) : Hazard c samples qos msg taken again ↔
    (msg.messageId = .sampleData ∧ msg.filtered = false ∧ ¬ Unentered c qos msg ∧
      StoreHazard c qos msg (ownState c qos msg) (ownSamples c samples msg) taken) ∨
    ((Unentered c qos msg ∨ ¬ (msg.messageId = .sampleData ∧ msg.filtered = true)) ∧
      RejectHazard c samples qos msg) ∨
    (Unentered c qos msg ∧ qos.watchdog = true) := by
  constructor
  · intro hazard
    cases hazard with
    | sample _ data unfiltered entered hazard =>
      exact .inl ⟨data, unfiltered, entered, hazard⟩
    | disposeUnregister kind => rcases delivered.kind with h | h <;> simp [h] at kind
    | takenAgain kind => rcases delivered.kind with h | h <;> simp [h] at kind
    | coherentSample _ goesOn hazard => exact .inr (.inl ⟨goesOn, hazard⟩)
    | coherentEnd kind => rcases delivered.kind with h | h <;> simp [h] at kind
    | refused _ unentered watchdog => exact .inr (.inr ⟨unentered, watchdog⟩)
  · rintro (⟨hdata, hunfiltered, hentered, hazard⟩ | ⟨hgoesOn, hazard⟩ | ⟨hunentered, hwatchdog⟩)
    · exact .sample delivered hdata hunfiltered hentered hazard
    · exact .coherentSample delivered hgoesOn hazard
    · exact .refused delivered hunentered hwatchdog

theorem sampleReceived_stored (w : Wf c samples) (valid : qos.Valid) (fresh : Fresh c samples msg)
    (data : msg.messageId = .sampleData) (delivered : Delivered msg)
    (entered : ¬ Unentered c qos msg) (unfiltered : msg.filtered = false) :
    Safe (c.sampleReceived qos msg taken) ↔ ¬ Hazard c samples qos msg taken again := by
  have hnotice : msg.isNotice = false := by simp [Message.isNotice, data]
  have hunregistered : msg.messageId ≠ .instanceRegistration := by simp [data]
  have hpasses : ¬ (msg.messageId = .sampleData ∧ msg.filtered = true) := by simp [unfiltered]
  rw [hazard_iff delivered]
  by_cases hstore : StoreHazard c qos msg (ownState c qos msg) (ownSamples c samples msg) taken
  · obtain ⟨fault, herror, hne⟩ := storeInstanceData_hazard w fresh.toUnused valid.depth_pos entered hunregistered
      hpasses hstore
    have hsample : c.sampleReceived qos msg taken = .error fault := by
      unfold sampleReceived
      rw [if_neg delivered.passes, herror]
      rfl
    apply iff_of_false
    · exact not_safe_error ⟨fault, hsample, hne⟩
    · exact not_not_intro (.inl ⟨data, unfiltered, entered, hstore⟩)
  · obtain ⟨handle, just, c₁, c', h, hok, hcase⟩ :=
      storeInstanceData_data w fresh.toUnused valid.depth_pos hnotice entered hunregistered hpasses hstore
    have hbehind : (∃ samples', Behind c c' samples samples' qos msg) ∧
        ∃ inst, c'.getHandleInstance handle = some inst := by
      rcases hcase with ⟨hrejects, rfl⟩ | ⟨hstored, hdata⟩
      · obtain ⟨inst, hfound, -⟩ := h.found
        exact ⟨⟨samples, h.behind_rejected hunregistered hrejects⟩, inst, hfound⟩
      · obtain ⟨list, empty, hfound⟩ := hdata.found
        exact ⟨hdata.behind h fresh.toUnused hstored, _, hfound⟩
    obtain ⟨⟨samples', hbehind⟩, inst, hfound⟩ := hbehind
    obtain ⟨hbad, hgood⟩ := sampleReceived_entered delivered.passes hok hbehind hfound
    by_cases hreject : RejectHazard c samples qos msg
    · apply iff_of_false
      · exact not_safe_error ⟨_, hbad hreject, by decide⟩
      · exact not_not_intro (.inr (.inl ⟨.inr hpasses, hreject⟩))
    · obtain ⟨verified, hverified⟩ := hgood hreject
      apply iff_of_true (safe_ok hverified)
      rintro (⟨-, -, -, hazard⟩ | ⟨-, hazard⟩ | ⟨hunentered, -⟩)
      · exact hstore hazard
      · exact hreject hazard
      · exact entered hunentered

theorem sampleReceived_filtered (w : Wf c samples) (fresh : Fresh c samples msg)
    (data : msg.messageId = .sampleData) (delivered : Delivered msg)
    (entered : ¬ Unentered c qos msg) (filtered : msg.filtered = true) :
    Safe (c.sampleReceived qos msg taken) ↔ ¬ Hazard c samples qos msg taken again := by
  obtain ⟨handle, just, c₁, henter, -⟩ := enter_entered w fresh.toUnused entered
  have hunregistered : msg.messageId ≠ .instanceRegistration := by simp [data]
  have hsample : c.sampleReceived qos msg taken = .ok c₁ := by
    unfold sampleReceived storeInstanceData
    rw [if_neg delivered.passes, henter]
    dsimp only
    rw [if_neg hunregistered, if_pos ⟨data, filtered⟩]
    rfl
  rw [hazard_iff delivered]
  apply iff_of_true (safe_ok hsample)
  rintro (⟨-, hunfiltered, -⟩ | ⟨hgoesOn, -⟩ | ⟨hunentered, -⟩)
  · simp [filtered] at hunfiltered
  · exact (hgoesOn.resolve_left entered) ⟨data, filtered⟩
  · exact entered hunentered

theorem sampleReceived_registered (w : Wf c samples) (fresh : Fresh c samples msg)
    (registration : msg.messageId = .instanceRegistration)
    (delivered : Delivered msg) (entered : ¬ Unentered c qos msg) :
    Safe (c.sampleReceived qos msg taken) ↔ ¬ Hazard c samples qos msg taken again := by
  obtain ⟨handle, just, c', inst, hok, hbehind, hfound⟩ :=
    registered_behind taken w fresh.toUnused entered registration
  obtain ⟨hbad, hgood⟩ := sampleReceived_entered delivered.passes hok hbehind hfound
  rw [hazard_iff delivered]
  by_cases hreject : RejectHazard c samples qos msg
  · have hgoesOn : ¬ (msg.messageId = .sampleData ∧ msg.filtered = true) := by simp [registration]
    apply iff_of_false
    · exact not_safe_error ⟨_, hbad hreject, by decide⟩
    · exact not_not_intro (.inr (.inl ⟨.inr hgoesOn, hreject⟩))
  · obtain ⟨verified, hverified⟩ := hgood hreject
    apply iff_of_true (safe_ok hverified)
    rintro (⟨hdata, -⟩ | ⟨-, hazard⟩ | ⟨hunentered, -⟩)
    · simp [registration] at hdata
    · exact hreject hazard
    · exact entered hunentered

theorem sampleReceived_refused (w : Wf c samples) (delivered : Delivered msg)
    (unentered : Unentered c qos msg) :
    Safe (c.sampleReceived qos msg taken) ↔ ¬ Hazard c samples qos msg taken again := by
  obtain ⟨hbad, hwatched, hgood⟩ := sampleReceived_unentered w delivered.passes unentered
  rw [hazard_iff delivered]
  by_cases hreject : RejectHazard c samples qos msg
  · apply iff_of_false
    · exact not_safe_error ⟨_, hbad hreject, by decide⟩
    · exact not_not_intro (.inr (.inl ⟨.inl unentered, hreject⟩))
  · cases hwatchdog : qos.watchdog with
    | true =>
      apply iff_of_false
      · exact not_safe_error ⟨_, hwatched hreject hwatchdog, by decide⟩
      · exact not_not_intro (.inr (.inr ⟨unentered, rfl⟩))
    | false =>
      obtain ⟨verified, hverified⟩ := hgood hreject hwatchdog
      apply iff_of_true (safe_ok hverified)
      rintro (⟨-, -, hentered, -⟩ | ⟨-, hazard⟩ | ⟨-, hwatched'⟩)
      · exact hentered unentered
      · exact hreject hazard
      · cases hwatched'

theorem not_hazard (undelivered : ¬ Delivered msg)
    (disposeUnregister : msg.messageId ≠ .disposeUnregisterInstance)
    (coherentEnd : msg.messageId ≠ .endCoherentChanges) : ¬ Hazard c samples qos msg taken again := by
  intro hazard
  cases hazard with
  | sample delivered => exact undelivered delivered
  | disposeUnregister kind => exact disposeUnregister kind
  | takenAgain kind => exact disposeUnregister kind
  | coherentSample delivered => exact undelivered delivered
  | coherentEnd kind => exact coherentEnd kind
  | refused delivered => exact undelivered delivered

theorem sampleReceived_safe (w : Wf c samples) (valid : qos.Valid) (fresh : Fresh c samples msg)
    (kind : msg.messageId = .sampleData ∨ msg.messageId = .instanceRegistration) :
    Safe (c.sampleReceived qos msg taken) ↔ ¬ Hazard c samples qos msg taken again := by
  by_cases hstops : msg.expired = true ∨ msg.messageId = .sampleData ∧ msg.contentFiltered = true
  · have hsample : c.sampleReceived qos msg taken = .ok c := by
      unfold sampleReceived
      rw [if_pos hstops]
    apply iff_of_true (safe_ok hsample)
    apply not_hazard
    · intro hdelivered
      exact hdelivered.passes hstops
    · rcases kind with h | h <;> simp [h]
    · rcases kind with h | h <;> simp [h]
  · have hdelivered : Delivered msg := ⟨kind, hstops⟩
    by_cases hentered : Unentered c qos msg
    · exact sampleReceived_refused w hdelivered hentered
    · rcases kind with hdata | hregistration
      · cases hfiltered : msg.filtered with
        | true => exact sampleReceived_filtered w fresh hdata hdelivered hentered hfiltered
        | false => exact sampleReceived_stored w valid fresh hdata hdelivered hentered hfiltered
      · exact sampleReceived_registered w fresh hregistration hdelivered hentered

theorem watchNotice_eq (c : Cache δ) (qos : Qos) (msg : Message δ) (last : Bool) :
    c.watchNotice qos msg last =
      if CancelsUnknown c qos msg then .error .unknownInstance else .ok () := by
  unfold watchNotice
  by_cases hkey : c.instanceMap.lookup msg.key = none
  · have hiff : (qos.watchdog = true ∧ (qos.exclusive = false ∨
        ((c.instanceMap.lookup msg.key).isSome = true ∧ (msg.isOwner = true ∨ last = true)))) ↔
        CancelsUnknown c qos msg := by
      simp [CancelsUnknown, hkey]
    rw [if_congr hiff rfl rfl, hkey]
    rfl
  · have hknown : ¬ CancelsUnknown c qos msg := fun h => hkey h.2.2
    have hsome : (c.instanceMap.lookup msg.key).isSome = true :=
      Option.isSome_iff_ne_none.mpr hkey
    dsimp only
    split <;> rfl

theorem disposed_safe (w : Wf c samples) (fresh : Fresh c samples msg)
    (kind : msg.messageId = .disposeInstance) :
    Safe (c.dataReceived qos msg taken again) ↔ ¬ Hazard c samples qos msg taken again := by
  have hnotice : msg.isNotice = true := by simp [Message.isNotice, kind]
  obtain ⟨stored, c', hstore⟩ := storeInstanceData_notice qos w fresh.toUnused hnotice
  apply iff_of_true
  · intro fault herror
    unfold dataReceived at herror
    rw [kind] at herror
    dsimp only at herror
    rw [watchNotice_eq] at herror
    split at herror
    · cases herror
      rfl
    · rw [hstore] at herror
      cases herror
  · apply not_hazard
    · rintro ⟨h | h, -⟩ <;> simp [kind] at h
    · simp [kind]
    · simp [kind]

theorem Hazard.unregisters (hazard : Hazard c samples qos msg taken again)
    (kind : msg.messageId = .disposeUnregisterInstance) :
    ¬ CancelsUnknown c qos msg ∧ ¬ Unentered c qos msg ∧
      (StoreHazard c qos msg (ownState c qos msg) (ownSamples c samples msg) taken ∨
        ¬ Rejects c qos msg (ownSamples c samples msg) ∧
          LosesSecond c qos msg (ownSamples c samples msg) ∧ again = true) := by
  have hundelivered : ¬ Delivered msg := by
    rintro ⟨h | h, -⟩ <;> simp [kind] at h
  cases hazard with
  | sample delivered => exact absurd delivered hundelivered
  | disposeUnregister _ goesOn entered hazard => exact ⟨goesOn, entered, .inl hazard⟩
  | takenAgain _ goesOn entered stored loses isTaken =>
    exact ⟨goesOn, entered, .inr ⟨stored, loses, isTaken⟩⟩
  | coherentSample delivered => exact absurd delivered hundelivered
  | coherentEnd kind' => simp [kind] at kind'
  | refused delivered => exact absurd delivered hundelivered

theorem disposeUnregistered_safe (w : Wf c samples) (distinct : (c.instances.map Prod.fst).Nodup)
    (valid : qos.Valid) (fresh : Fresh c samples msg) (kind : msg.messageId = .disposeUnregisterInstance) :
    Safe (c.dataReceived qos msg taken again) ↔ ¬ Hazard c samples qos msg taken again := by
  have hnotice : msg.isNotice = false := by simp [Message.isNotice, kind]
  have hunregistered : msg.messageId ≠ .instanceRegistration := by simp [kind]
  have hpasses : ¬ (msg.messageId = .sampleData ∧ msg.filtered = true) := by simp [kind]
  have hreceived : c.dataReceived qos msg taken again =
      (c.watchNotice qos msg (c.isLast msg)).bind fun _ =>
        (c.storeInstanceData qos msg msg.newElement taken).bind fun disposed =>
          (disposed.2.storeInstanceData qos msg msg.secondElement again).map
            fun stored => stored.2 := by
    unfold dataReceived
    rw [kind]
    rfl
  rw [hreceived, watchNotice_eq]
  by_cases hcancels : CancelsUnknown c qos msg
  · rw [if_pos hcancels]
    apply iff_of_true
    · intro fault herror
      cases herror
      rfl
    · exact fun h => (h.unregisters kind).1 hcancels
  · rw [if_neg hcancels]
    dsimp only [Except.bind]
    by_cases hentered : Unentered c qos msg
    · rw [storeInstanceData_unentered hentered]
      dsimp only
      rw [storeInstanceData_unentered hentered]
      apply iff_of_true
      · exact safe_ok rfl
      · exact fun h => (h.unregisters kind).2.1 hentered
    · by_cases hstore : StoreHazard c qos msg (ownState c qos msg) (ownSamples c samples msg) taken
      · obtain ⟨fault, herror, hne⟩ := storeInstanceData_hazard w fresh.toUnused valid.depth_pos hentered
          hunregistered hpasses hstore
        rw [herror]
        apply iff_of_false
        · exact not_safe_error ⟨fault, rfl, hne⟩
        · exact not_not_intro (.disposeUnregister kind hcancels hentered hstore)
      · obtain ⟨first, c', hfirst, hbad, hgood⟩ := storeInstanceData_twice w fresh distinct
          valid.depth_pos hnotice hentered hunregistered hpasses hstore again
        rw [hfirst]
        dsimp only
        by_cases htaken : ¬ Rejects c qos msg (ownSamples c samples msg) ∧
            LosesSecond c qos msg (ownSamples c samples msg) ∧ again = true
        · obtain ⟨fault, herror, hne⟩ := hbad htaken
          rw [herror]
          apply iff_of_false
          · exact not_safe_error ⟨fault, rfl, hne⟩
          · exact not_not_intro (.takenAgain kind hcancels hentered htaken.1 htaken.2.1 htaken.2.2)
        · obtain ⟨second, hsecond⟩ := hgood htaken
          rw [hsecond]
          apply iff_of_true
          · exact safe_ok rfl
          · exact fun h => (h.unregisters kind).2.2.elim hstore htaken

theorem coherentEnded_safe (w : Wf c samples) (kind : msg.messageId = .endCoherentChanges) :
    Safe (c.dataReceived qos msg taken again) ↔ ¬ Hazard c samples qos msg taken again := by
  have hreceived : c.dataReceived qos msg taken again = c.verifyCoherent msg := by
    unfold dataReceived
    rw [kind]
  have hundelivered : ¬ Delivered msg := by
    rintro ⟨h | h, -⟩ <;> simp [kind] at h
  obtain ⟨hbad, hgood⟩ := verifyCoherent_spec w msg
  rw [hreceived]
  by_cases hreject : msg.verdict = .rejected ∧ ∃ h, Doomed c samples msg.pub msg.publisherId h
  · apply iff_of_false
    · exact not_safe_error ⟨_, hbad hreject, by decide⟩
    · obtain ⟨hverdict, handle, hdoomed⟩ := hreject
      exact not_not_intro (.coherentEnd kind hverdict handle hdoomed)
  · obtain ⟨verified, hok, -⟩ := hgood hreject
    apply iff_of_true (safe_ok hok)
    intro hazard
    cases hazard with
    | sample delivered => exact hundelivered delivered
    | disposeUnregister kind' => simp [kind] at kind'
    | takenAgain kind' => simp [kind] at kind'
    | coherentSample delivered => exact hundelivered delivered
    | coherentEnd _ rejected handle doomed => exact hreject ⟨rejected, handle, doomed⟩
    | refused delivered => exact hundelivered delivered

theorem unregistered_safe (w : Wf c samples) (fresh : Fresh c samples msg)
    (kind : msg.messageId = .unregisterInstance) :
    Safe (c.dataReceived qos msg taken again) ↔ ¬ Hazard c samples qos msg taken again := by
  have hnotice : msg.isNotice = true := by simp [Message.isNotice, kind]
  obtain ⟨stored, c', hstore⟩ := storeInstanceData_notice qos w fresh.toUnused hnotice
  have hreceived : c.dataReceived qos msg taken again = .ok c' := by
    unfold dataReceived
    rw [kind]
    rw [hstore]
    rfl
  apply iff_of_true (safe_ok hreceived)
  apply not_hazard
  · rintro ⟨h | h, -⟩ <;> simp [kind] at h
  · simp [kind]
  · simp [kind]

def oneSample : Qos where
  maxSamples := 1
  maxInstances := lengthUnlimited
  maxSamplesPerInstance := lengthUnlimited
  keepAll := false
  historyDepth := 1
  bySourceTimestamp := false
  lifecycle := ⟨QosHelper.durationInfinite, QosHelper.durationInfinite⟩
  exclusive := false
  watchdog := false

def sampleOf (key : Nat) : Message Nat where
  messageId := .sampleData
  pub := 1
  publisherId := 1
  coherentChange := false
  sourceTimestamp := 0
  key := key
  data := key
  expired := false
  contentFiltered := false
  filtered := false
  isOwner := false
  verdict := .pending
  newHandle := 2
  newElement := 20
  secondElement := 21

/-- A cache with one unread sample, of the instance with the key 1. -/
def oneHeld : Cache Nat where
  links := ⟨fun _ => none, fun _ => none⟩
  element := fun _ => newSample (.create 1 false) (sampleOf 1)
  refCount := fun _ => 1
  instanceMap := [(1, 1)]
  instances := [(1, ⟨(InstanceState.create 1 false).dataWasReceived 1, ⟨some 10, some 10, 1⟩⟩)]

def heldSamples : Nat → List Nat := fun handle => if handle = 1 then [10] else []

theorem oneHeld_wf : Wf oneHeld heldSamples := by
  apply Wf.single 1 rfl rfl
  · exact ⟨⟨rfl, rfl, rfl⟩, ⟨rfl, trivial⟩, ⟨rfl, trivial⟩⟩
  · exact List.nodup_singleton 10
  · intro _ _
    exact Nat.zero_lt_one

theorem oneSample_valid : oneSample.Valid :=
  ⟨.inr (by decide), .inl rfl, .inl rfl, .inr (by decide)⟩

theorem oneHeld_fresh (key : Nat) : Fresh oneHeld heldSamples (sampleOf key) := by
  have hoff : ∀ a, a ≠ 10 → ∀ h, a ∉ heldSamples h := by
    intro a ha h hin
    unfold heldSamples at hin
    split at hin
    · exact ha (List.mem_singleton.mp hin)
    · cases hin
  exact ⟨⟨rfl, hoff 20 (by decide)⟩, hoff 21 (by decide), (by decide : (21 : Nat) ≠ 20)⟩

end OpenDDS.Guarantees.StoreSafety
