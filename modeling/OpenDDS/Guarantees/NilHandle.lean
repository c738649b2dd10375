import OpenDDS.Library.Run
import OpenDDS.Source.ContainerHandles
import OpenDDS.Source.TypedDataWriter

/-!
# The nil handle of the operations on an instance

`write_w_timestamp` and `dispose_w_timestamp` called with the nil handle do what they do
with the handle of the key. `unregister_instance_w_timestamp` looks the handle up as well,
but only to check the given one: the nil handle is what it passes on. No instance has it,
so that the automatic dispose finds nothing, and neither does the container, which
reports that the instance is not registered.
-/
namespace OpenDDS.Guarantees.NilHandle

open Library Source Source.TypedWriter Source.TypedDataWriter

variable {α κ : Type} {config : Config α κ} {t t' : TypedDataWriter α κ}
  {handle next : Nat} {instanceData : α} {sourceTimestamp : Time_t} {ret : CallResult}

/-- The instance of a sample is in the map and the container, and not unregistered. -/
structure Registered [DecidableEq κ] (config : Config α κ) (t : TypedDataWriter α κ)
    (instanceData : α) : Prop where
  known : t.lookupInstance config instanceData ≠ handleNil
  present : (t.getHandleInstance (t.lookupInstance config instanceData)).isSome
  current : t.unregistered (t.lookupInstance config instanceData) = false

/-- The operations that take a sample and a handle, with the rest of their inputs. -/
inductive Method where
  | write (element next : Nat) (expired : Bool)
  | dispose
  | unregister
  deriving DecidableEq

def invoke [DecidableEq κ] (config : Config α κ) (t : TypedDataWriter α κ) (instanceData : α)
    (handle : Nat) (sourceTimestamp : Time_t) : Method → Option (CallResult × TypedDataWriter α κ)
  | .write element next expired =>
    t.writeWTimestamp config element instanceData handle sourceTimestamp next expired
  | .dispose => t.disposeWTimestamp config instanceData handle sourceTimestamp
  | .unregister => t.unregisterInstanceWTimestamp config instanceData handle sourceTimestamp

/-- What the claimed equivalence is about: the result of a call, and after it the instance
map and the container with the data of its instances. -/
def observed (r : CallResult × TypedDataWriter α κ) :
    CallResult × List (κ × Nat) × Container × (Nat → Option κ) × (Nat → Bool) :=
  (r.1, r.2.instanceMap, r.2.writer.container, r.2.registeredSample, r.2.unregistered)

def SameAsNil [DecidableEq κ] (config : Config α κ) (t : TypedDataWriter α κ)
    (instanceData : α) (sourceTimestamp : Time_t) (method : Method) : Prop :=
  (invoke config t instanceData handleNil sourceTimestamp method).map observed =
    (invoke config t instanceData (t.lookupInstance config instanceData) sourceTimestamp
      method).map observed

/-- No instance has the nil handle, and only an enabled writer has instances. -/
structure Sound (t : TypedDataWriter α κ) : Prop where
  unnamed : handleNil ∉ t.writer.container.handles
  enabled : t.enabled = false → t.instanceMap = []

theorem sound_create : Sound (create : TypedDataWriter α κ) where
  unnamed := by simp [create, DataWriter.create, Container.handles]
  enabled _ := rfl

theorem Sound.frame (h : Sound t)
    (handles : t'.writer.container.handles ⊆ t.writer.container.handles)
    (enabled : t'.enabled = t.enabled) (instanceMap : t'.instanceMap = t.instanceMap) :
    Sound t' where
  unnamed hmem := h.unnamed (handles hmem)
  enabled hoff := by
    rw [instanceMap]
    exact h.enabled (enabled ▸ hoff)

theorem Sound.unnamed_step {w : DataWriter} {op : Operation} (h : Sound t)
    (hstep : t.writer.step config.limits op = some w)
    (hop : ∀ given, op ≠ .registerInstance given handleNil) : handleNil ∉ w.container.handles := by
  intro hmem
  rcases DataWriter.mem_handles_step hstep hmem with hold | ⟨given, rfl⟩
  · exact h.unnamed hold
  · exact hop given rfl

theorem createControlMessage_frame (t : TypedDataWriter α κ) (messageId : MessageId)
    (data : Option (ControlData κ)) (sourceTimestamp : Time_t) :
    ∃ sequenceNumber readerInfo,
      (t.createControlMessage messageId data sourceTimestamp).2 =
        { t with sequenceNumber, readerInfo } := by
  unfold createControlMessage
  split
  · exact ⟨_, _, rfl⟩
  · exact ⟨_, _, rfl⟩

theorem sendControl_frame (config : Config α κ) (t : TypedDataWriter α κ) (messageId : MessageId)
    (data : Option (ControlData κ)) (sourceTimestamp : Time_t) :
    ∃ sequenceNumber readerInfo controls,
      (t.sendControl config messageId data sourceTimestamp).2 =
        { t with sequenceNumber, readerInfo, controls } := by
  obtain ⟨sequenceNumber, readerInfo, hcreate⟩ :=
    createControlMessage_frame t messageId data sourceTimestamp
  have hsend : (t.sendControl config messageId data sourceTimestamp).2 =
      { (t.createControlMessage messageId data sourceTimestamp).2 with
        controls := (t.createControlMessage messageId data sourceTimestamp).2.controls ++
          [(t.createControlMessage messageId data sourceTimestamp).1] } := rfl
  rw [hsend, hcreate]
  exact ⟨_, _, _, rfl⟩

theorem reportInstance_frame (config : Config α κ) (t : TypedDataWriter α κ)
    (messageId : MessageId) (handle : Nat) (sourceTimestamp : Time_t) :
    ∃ sequenceNumber readerInfo controls,
      (t.reportInstance config messageId handle sourceTimestamp).2 =
        { t with sequenceNumber, readerInfo, controls } :=
  sendControl_frame config t messageId _ sourceTimestamp

variable {messageId : MessageId}

@[simp] theorem reportInstance_writer :
    (t.reportInstance config messageId handle sourceTimestamp).2.writer = t.writer := by
  obtain ⟨_, _, _, heq⟩ := reportInstance_frame config t messageId handle sourceTimestamp
  rw [heq]

@[simp] theorem reportInstance_instanceMap :
    (t.reportInstance config messageId handle sourceTimestamp).2.instanceMap = t.instanceMap := by
  obtain ⟨_, _, _, heq⟩ := reportInstance_frame config t messageId handle sourceTimestamp
  rw [heq]

@[simp] theorem reportInstance_enabled :
    (t.reportInstance config messageId handle sourceTimestamp).2.enabled = t.enabled := by
  obtain ⟨_, _, _, heq⟩ := reportInstance_frame config t messageId handle sourceTimestamp
  rw [heq]

@[simp] theorem reportInstance_unregistered :
    (t.reportInstance config messageId handle sourceTimestamp).2.unregistered = t.unregistered := by
  obtain ⟨_, _, _, heq⟩ := reportInstance_frame config t messageId handle sourceTimestamp
  rw [heq]

theorem Sound.reportInstance (h : Sound t) :
    Sound (t.reportInstance config messageId handle sourceTimestamp).2 :=
  h.frame (by simp) (by simp) (by simp)

theorem Sound.reports (h : t.reportInstance config messageId handle sourceTimestamp = (ret, t'))
    (hsound : Sound t) : Sound t' ∧ t'.enabled = t.enabled := by
  obtain rfl : (t.reportInstance config messageId handle sourceTimestamp).2 = t' := by rw [h]
  exact ⟨hsound.reportInstance, reportInstance_enabled⟩

theorem registerInstanceI_spec {data : κ}
    (h : t.registerInstanceI config handle data sourceTimestamp next = (ret, t'))
    (hsound : Sound t) (hnext : next ≠ handleNil) :
    Sound t' ∧ (ret = .returned .ok → t'.enabled = true) := by
  unfold registerInstanceI at h
  split at h
  · cases h
    exact ⟨hsound, nofun⟩
  · rename_i hon
    have henabled : t.enabled = true := by simpa using hon
    -- Whatever comes of it, the container has gained no more than the next handle.
    have hcontainer : ∀ {given result}, t.writer.container.registerInstance config.limits given next =
        result → Sound (t.setContainer result.2) := by
      rintro given _ rfl
      refine ⟨fun hmem => ?_, hsound.enabled⟩
      rcases Container.mem_handles_registerInstance hmem with hold | heq
      · exact hsound.unnamed hold
      · exact hnext heq.symm
    split at h
    all_goals
      split at h
      · rename_i c hc
        obtain ⟨hunnamed, hvalid⟩ := hcontainer hc
        obtain ⟨hsound', henabled'⟩ := Sound.reports h ⟨hunnamed, hvalid⟩
        exact ⟨hsound', fun _ => henabled'.trans henabled⟩
      · rename_i c hc
        cases h
        exact ⟨hcontainer hc, fun _ => henabled⟩

variable {element : Nat} {arguments : WriteArguments α}

theorem writeObtained_sound (h : t.writeObtained config element handle arguments = some (ret, t'))
    (hsound : Sound t) : Sound t' := by
  unfold writeObtained at h
  split at h
  · cases h
    exact hsound.frame (List.Subset.refl _) rfl rfl
  · obtain ⟨w₁, h₁, h⟩ := Option.bind_eq_some_iff.mp h
    obtain ⟨w₂, h₂, h⟩ := Option.bind_eq_some_iff.mp h
    cases h
    have hsound₁ : Sound { t with writer := w₁ } :=
      ⟨hsound.unnamed_step h₁ nofun, hsound.enabled⟩
    exact ⟨hsound₁.unnamed_step h₂ nofun, hsound.enabled⟩

theorem proceed_sound {c : Container} {outcome : Container.Obtained}
    (h : t.proceed config element handle arguments (outcome, c) = some (ret, t')) (hsound : Sound t)
    (hc : handleNil ∉ c.handles) : Sound t' := by
  have hsettled : Sound { t with writer := t.writer.settle element handle (outcome, c) } := by
    refine ⟨?_, hsound.enabled⟩
    rw [DataWriter.handles_settle]
    exact hc
  cases outcome with
  | buffer => exact writeObtained_sound h hsettled
  | failed ret =>
    cases h
    exact hsettled
  | waits wait =>
    cases h
    exact hsettled.frame (List.Subset.refl _) rfl rfl

variable {expired : Bool}

theorem write_sound (h : t.write config element handle arguments expired = some (ret, t'))
    (hsound : Sound t) : Sound t' := by
  unfold write at h
  split at h
  · cases h
    exact hsound
  · obtain ⟨⟨outcome, c⟩, hc, h⟩ := Option.bind_eq_some_iff.mp h
    refine proceed_sound h hsound ?_
    rw [Container.handles_obtainBuffer hc]
    exact hsound.unnamed

theorem wake_sound {result : Container.WaitResult}
    (h : t.wake config element result expired = some (ret, t')) (hsound : Sound t) : Sound t' := by
  obtain ⟨thread, -, h⟩ := Option.bind_eq_some_iff.mp h
  obtain ⟨arguments, -, h⟩ := Option.bind_eq_some_iff.mp h
  obtain ⟨⟨outcome, c⟩, hc, h⟩ := Option.bind_eq_some_iff.mp h
  refine proceed_sound h (hsound.frame (List.Subset.refl _) rfl rfl) ?_
  rw [Container.handles_resume hc]
  exact hsound.unnamed

/-- `DataWriterImpl::dispose` touches neither the map nor the flags of the instances. -/
structure Disposes (t t' : TypedDataWriter α κ) : Prop where
  handles : t'.writer.container.handles = t.writer.container.handles
  enabled : t'.enabled = t.enabled
  instanceMap : t'.instanceMap = t.instanceMap
  unregistered : t'.unregistered = t.unregistered

theorem dispose_disposes (h : t.dispose config handle sourceTimestamp = some (ret, t')) :
    Disposes t t' := by
  unfold TypedDataWriter.dispose at h
  split at h
  · cases h
    exact ⟨rfl, rfl, rfl, rfl⟩
  · obtain ⟨⟨ret, c⟩, hc, h⟩ := Option.bind_eq_some_iff.mp h
    have hhandles : c.handles = t.writer.container.handles := Container.handles_dispose hc
    dsimp only at h
    split at h
    · cases h
      constructor
      · simpa [setContainer] using hhandles
      · simp [setContainer]
      · simp [setContainer]
      · simp [setContainer]
    · cases h
      exact ⟨hhandles, rfl, rfl, rfl⟩

theorem Sound.disposes (h : Sound t) (hdisposes : Disposes t t') : Sound t' :=
  h.frame (by simp [hdisposes.handles]) hdisposes.enabled hdisposes.instanceMap

theorem unregisterWithContainer_sound
    (h : t.unregisterWithContainer config handle sourceTimestamp = (ret, t'))
    (hsound : Sound t) : Sound t' := by
  unfold unregisterWithContainer at h
  split at h
  · cases h
    exact hsound
  · exact (Sound.reports h (hsound.frame (List.Subset.refl _) rfl rfl)).1

theorem unregisterInstanceI_sound
    (h : t.unregisterInstanceI config handle sourceTimestamp = some (ret, t'))
    (hsound : Sound t) : Sound t' := by
  unfold unregisterInstanceI at h
  split at h
  · cases h
    exact hsound
  · split at h
    · obtain ⟨⟨ret₁, t₁⟩, h₁, h⟩ := Option.bind_eq_some_iff.mp h
      exact unregisterWithContainer_sound (Option.some.inj h)
        (hsound.disposes (dispose_disposes h₁))
    · exact unregisterWithContainer_sound (Option.some.inj h) hsound

theorem unregisterInstances_sound {hs : List Nat}
    (h : unregisterInstances config sourceTimestamp hs t = some t') (hsound : Sound t) :
    Sound t' := by
  induction hs generalizing t with
  | nil =>
    cases h
    exact hsound
  | cons handle hs ih =>
    obtain ⟨⟨ret, t₁⟩, h₁, h⟩ := Option.bind_eq_some_iff.mp h
    exact ih h (unregisterInstanceI_sound h₁ hsound)

theorem endCoherentChanges_sound (hsound : Sound t) :
    Sound (t.endCoherentChanges config sourceTimestamp) := by
  exact hsound.frame (List.Subset.refl _) rfl rfl

variable [DecidableEq κ]

theorem getOrCreateInstanceHandle_sound
    (h : t.getOrCreateInstanceHandle config instanceData sourceTimestamp next =
      some (ret, handle, t')) (hsound : Sound t) (hnext : next ≠ handleNil) : Sound t' := by
  unfold getOrCreateInstanceHandle at h
  dsimp only at h
  split at h
  · obtain ⟨i, -, h⟩ := Option.bind_eq_some_iff.mp h
    split at h
    · cases h
      exact hsound
    · split at h
      · rename_i hregister
        cases h
        exact (registerInstanceI_spec hregister hsound hnext).1
      · rename_i hregister
        cases h
        exact (registerInstanceI_spec hregister hsound hnext).1
  · split at h
    · rename_i hregister
      cases h
      obtain ⟨hsound₁, henabled⟩ := registerInstanceI_spec hregister hsound hnext
      exact ⟨hsound₁.unnamed, fun hoff => by simp [henabled rfl] at hoff⟩
    · rename_i hregister
      cases h
      exact (registerInstanceI_spec hregister hsound hnext).1

theorem writeWTimestamp_sound
    (h : t.writeWTimestamp config element instanceData handle sourceTimestamp next expired =
      some (ret, t')) (hsound : Sound t) (hnext : next ≠ handleNil) : Sound t' := by
  unfold writeWTimestamp at h
  split at h
  · obtain ⟨⟨ret₁, handle₁, t₁⟩, h₁, h⟩ := Option.bind_eq_some_iff.mp h
    have hsound₁ := getOrCreateInstanceHandle_sound h₁ hsound hnext
    dsimp only at h
    split at h
    · exact write_sound h hsound₁
    · cases h
      exact hsound₁
  · exact write_sound h hsound

theorem disposeWTimestamp_sound
    (h : t.disposeWTimestamp config instanceData handle sourceTimestamp = some (ret, t'))
    (hsound : Sound t) : Sound t' := by
  unfold disposeWTimestamp at h
  dsimp only at h
  split at h
  · split at h
    · cases h
      exact hsound
    · exact hsound.disposes (dispose_disposes h)
  · exact hsound.disposes (dispose_disposes h)

theorem unregisterInstanceWTimestamp_sound
    (h : t.unregisterInstanceWTimestamp config instanceData handle sourceTimestamp =
      some (ret, t')) (hsound : Sound t) : Sound t' := by
  unfold unregisterInstanceWTimestamp at h
  dsimp only at h
  split at h
  · cases h
    exact hsound
  · split at h
    · cases h
      exact hsound
    · exact unregisterInstanceI_sound h hsound

theorem sound_calls {c : Call α} (h : Calls config t c t') (hsound : Sound t) : Sound t' := by
  obtain ⟨hallowed, h⟩ := h
  cases c with
  | enable =>
    cases h
    exact ⟨hsound.unnamed, nofun⟩
  | associate readerInfo =>
    cases h
    exact hsound.frame (List.Subset.refl _) rfl rfl
  | beginCoherentChanges =>
    cases h
    exact hsound.frame (List.Subset.refl _) rfl rfl
  | endCoherentChanges sourceTimestamp =>
    cases h
    exact endCoherentChanges_sound hsound
  | registerInstance instanceData sourceTimestamp next =>
    obtain ⟨⟨handle, t₁⟩, h₁, rfl⟩ := Option.map_eq_some_iff.mp h
    obtain ⟨⟨ret, handle, t₁⟩, h₂, heq⟩ := Option.map_eq_some_iff.mp h₁
    cases heq
    exact getOrCreateInstanceHandle_sound h₂ hsound hallowed
  | write element instanceData handle sourceTimestamp next expired =>
    obtain ⟨⟨ret, t₁⟩, h₁, rfl⟩ := Option.map_eq_some_iff.mp h
    exact writeWTimestamp_sound h₁ hsound hallowed.1
  | wake element result expired =>
    obtain ⟨⟨ret, t₁⟩, h₁, rfl⟩ := Option.map_eq_some_iff.mp h
    exact wake_sound h₁ hsound
  | dispose instanceData instanceHandle sourceTimestamp =>
    obtain ⟨⟨ret, t₁⟩, h₁, rfl⟩ := Option.map_eq_some_iff.mp h
    exact disposeWTimestamp_sound h₁ hsound
  | unregisterInstance instanceData handle sourceTimestamp =>
    obtain ⟨⟨ret, t₁⟩, h₁, rfl⟩ := Option.map_eq_some_iff.mp h
    exact unregisterInstanceWTimestamp_sound h₁ hsound
  | unregisterInstances sourceTimestamp => exact unregisterInstances_sound h hsound
  | container op =>
    obtain ⟨w, hw, rfl⟩ := Option.map_eq_some_iff.mp h
    refine ⟨hsound.unnamed_step hw ?_, hsound.enabled⟩
    rintro given rfl
    cases hallowed.1

theorem sound {calls : List (Call α)} (run : Run create (Calls config) calls t) : Sound t :=
  run.invariant Sound sound_create fun _ _ _ hsound h => sound_calls h hsound

theorem getOrCreateInstanceHandle_registered (h : Registered config t instanceData) :
    t.getOrCreateInstanceHandle config instanceData sourceTimestamp next =
      some (.returned .ok, t.lookupInstance config instanceData, t) := by
  have hknown := h.known
  have hpresent := h.present
  have hcurrent := h.current
  unfold lookupInstance at *
  unfold getOrCreateInstanceHandle
  cases hfind : t.instanceMap.lookup (config.key instanceData) with
  | none =>
    rw [hfind] at hknown
    exact absurd rfl hknown
  | some handle =>
    rw [hfind] at hpresent hcurrent
    obtain ⟨i, hi⟩ := Option.isSome_iff_exists.mp hpresent
    simp only [Option.getD_some] at hi hcurrent ⊢
    simp [hfind, hi, hcurrent]

theorem write_nil (h : Registered config t instanceData) :
    t.writeWTimestamp config element instanceData handleNil sourceTimestamp next expired =
      t.writeWTimestamp config element instanceData (t.lookupInstance config instanceData)
        sourceTimestamp next expired := by
  rw [writeWTimestamp, writeWTimestamp, if_pos rfl, if_neg h.known,
    getOrCreateInstanceHandle_registered h, Option.bind_eq_bind, Option.bind_some]
  simp only [if_true]

theorem dispose_nil (h : Registered config t instanceData) :
    t.disposeWTimestamp config instanceData handleNil sourceTimestamp =
      t.disposeWTimestamp config instanceData (t.lookupInstance config instanceData)
        sourceTimestamp := by
  rw [disposeWTimestamp, disposeWTimestamp, if_pos rfl, if_neg h.known, if_neg h.known]

omit [DecidableEq κ] in
theorem unregisterWithContainer_nil (hsound : Sound t) :
    t.unregisterWithContainer config handleNil sourceTimestamp =
      (.returned .preconditionNotMet, t) := by
  have hnone : t.getHandleInstance handleNil = none :=
    Container.getHandleInstance_none.mpr hsound.unnamed
  rw [unregisterWithContainer, hnone]

theorem unregister_nil (hsound : Sound t) (henabled : t.enabled = true)
    (h : Registered config t instanceData) :
    t.unregisterInstanceWTimestamp config instanceData handleNil sourceTimestamp =
      some (.returned .preconditionNotMet, t) := by
  have hnone : t.writer.container.getHandleInstance handleNil = none :=
    Container.getHandleInstance_none.mpr hsound.unnamed
  have hdispose : t.dispose config handleNil sourceTimestamp =
      some (.returned .preconditionNotMet, t) := by
    rw [TypedDataWriter.dispose, if_neg (by simp [henabled]), Container.dispose, hnone]
    rfl
  rw [unregisterInstanceWTimestamp, if_neg h.known, if_neg (by simp), unregisterInstanceI,
    if_neg (by simp [henabled])]
  split
  · rw [hdispose, Option.bind_eq_bind, Option.bind_some]
    dsimp only
    rw [unregisterWithContainer_nil hsound]
  · rw [unregisterWithContainer_nil hsound]

omit [DecidableEq κ] in
theorem unregisterWithContainer_flag (hmem : handle ∈ t.writer.container.handles)
    (h : t.unregisterWithContainer config handle sourceTimestamp = (ret, t')) :
    t'.unregistered handle = true := by
  obtain rfl : (t.unregisterWithContainer config handle sourceTimestamp).2 = t' := by rw [h]
  unfold unregisterWithContainer
  split
  · rename_i hnone
    exact absurd hmem (Container.getHandleInstance_none.mp hnone)
  · simp

theorem unregister_flag (henabled : t.enabled = true) (h : Registered config t instanceData)
    (hcall : t.unregisterInstanceWTimestamp config instanceData
      (t.lookupInstance config instanceData) sourceTimestamp = some (ret, t')) :
    t'.unregistered (t.lookupInstance config instanceData) = true := by
  have hmem : t.lookupInstance config instanceData ∈ t.writer.container.handles := by
    by_contra hnot
    have hpresent := h.present
    rw [getHandleInstance, Container.getHandleInstance_none.mpr hnot] at hpresent
    cases hpresent
  rw [unregisterInstanceWTimestamp, if_neg h.known, if_neg (by simp), unregisterInstanceI,
    if_neg (by simp [henabled])] at hcall
  split at hcall
  · obtain ⟨⟨ret₁, t₁⟩, h₁, hcall⟩ := Option.bind_eq_some_iff.mp hcall
    refine unregisterWithContainer_flag ?_ (Option.some.inj hcall)
    rw [(dispose_disposes h₁).handles]
    exact hmem
  · exact unregisterWithContainer_flag hmem (Option.some.inj hcall)

theorem Registered.enabled (h : Registered config t instanceData) (hsound : Sound t) :
    t.enabled = true := by
  by_contra hoff
  have hempty : t.instanceMap = [] := hsound.enabled (by simpa using hoff)
  have hknown := h.known
  rw [lookupInstance, hempty] at hknown
  exact hknown rfl

/-- The nil handle means the handle of the key for `write_w_timestamp` and
`dispose_w_timestamp`, and never for `unregister_instance_w_timestamp`. -/
theorem nil_handle_iff {calls : List (Call α)} (run : Run create (Calls config) calls t)
    (h : Registered config t instanceData) (sourceTimestamp : Time_t) (method : Method) :
    SameAsNil config t instanceData sourceTimestamp method ↔ method ≠ .unregister := by
  have hsound : Sound t := sound run
  cases method with
  | write element next expired =>
    refine ⟨fun _ => nofun, fun _ => ?_⟩
    rw [SameAsNil, invoke, invoke, write_nil h]
  | dispose =>
    refine ⟨fun _ => nofun, fun _ => ?_⟩
    rw [SameAsNil, invoke, invoke, dispose_nil h]
  | unregister =>
    have henabled := h.enabled hsound
    refine ⟨fun hsame => ?_, fun hne => absurd rfl hne⟩
    rw [SameAsNil, invoke, invoke, unregister_nil hsound henabled h] at hsame
    obtain ⟨⟨ret, t'⟩, hcall, heq⟩ := Option.map_eq_some_iff.mp hsame.symm
    -- The flag of the instance is set after the one call and not after the other.
    have hflag := unregister_flag henabled h hcall
    have hsameFlag : t'.unregistered = t.unregistered :=
      congrArg (fun o => o.2.2.2.2) heq
    rw [hsameFlag, h.current] at hflag
    cases hflag

section

/-- Samples of two numbers of which the first is the key. -/
def points : Config (Nat × Nat) Nat where
  limits := ⟨1, 0, 0, false⟩
  autodisposeUnregisteredInstances := true
  publisherContentFilter := false
  groupCoherent := false
  publisherId := 1
  key := Prod.fst
  sendControl := fun _ => true

def registering : List (Call (Nat × Nat)) := [.enable, .registerInstance (7, 0) ⟨0, 0⟩ 5]

def registered : TypedDataWriter (Nat × Nat) Nat :=
  { (create : TypedDataWriter (Nat × Nat) Nat) with
    writer := { DataWriter.create with
      container := { DataWriter.create.container with instances := [⟨5, .empty, .empty⟩] } }
    instanceMap := [(7, 5)]
    registeredSample := Function.update (fun _ => none) 5 (some 7)
    unregistered := Function.update (fun _ => false) 5 false
    enabled := true
    sequenceNumber := 1
    controls := [⟨.instanceRegistration, false, 1, ⟨0, 0⟩, true, some (.registeredSample 7)⟩] }

theorem registered_run : Run create (Calls points) registering registered :=
  (Run.start.next ⟨trivial, rfl⟩).next ⟨show 5 ≠ handleNil by decide, rfl⟩

theorem registered_point : Registered points registered (7, 3) where
  known := by decide
  present := rfl
  current := rfl

theorem nil_handle_registered :
    SameAsNil points registered (7, 3) ⟨1, 0⟩ (.write 0 6 false) ∧
      SameAsNil points registered (7, 3) ⟨1, 0⟩ .dispose ∧
      ¬ SameAsNil points registered (7, 3) ⟨1, 0⟩ .unregister :=
  ⟨(nil_handle_iff registered_run registered_point _ _).mpr nofun,
    (nil_handle_iff registered_run registered_point _ _).mpr nofun,
    fun h => (nil_handle_iff registered_run registered_point _ _).mp h rfl⟩

/-- An instance that is registered is not found by its nil handle. -/
theorem nil_handle_not_found :
    (∃ calls, Run create (Calls points) calls registered) ∧
      Registered points registered (7, 3) ∧
      registered.lookupInstance points (7, 3) = 5 ∧
      (registered.unregisterInstanceWTimestamp points (7, 3) handleNil ⟨1, 0⟩).map Prod.fst =
        some (.returned .preconditionNotMet) ∧
      (registered.unregisterInstanceWTimestamp points (7, 3) 5 ⟨1, 0⟩).map Prod.fst =
        some (.returned .ok) :=
  ⟨⟨registering, registered_run⟩, registered_point, rfl, rfl, rfl⟩

end

end OpenDDS.Guarantees.NilHandle
