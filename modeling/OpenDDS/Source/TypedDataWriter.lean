import OpenDDS.Source.DataWriter
import OpenDDS.Source.QosHelper
import OpenDDS.Source.WriterInfo

/-!
# A typed data writer

The operations that dds/idl/CPPTemplate.txt generates for a type of samples, over those of
`DataWriterImpl` (dds/DCPS/DataWriterImpl.cpp) that they call. `instance_map_` has the handle
of an instance under the key fields of its samples; each operation on an instance is given a
handle or `HANDLE_NIL` and resolves the latter in its own way.

An operation runs under the lock of the writer. A `write` that waits in `obtain_buffer`
keeps its arguments until it is woken. Marshalling, the lifespan of a sample, the monitor
and the times of the last liveliness activity are left out; so are the errors of allocation.
-/
namespace OpenDDS.Source

open SequenceNumber

/-- `DDS::HANDLE_NIL`. -/
def handleNil : Nat := 0

namespace TypedWriter

inductive CallResult where
  | returned (ret : ReturnCode)
  | notEnabled
  | waits
  deriving DecidableEq, Repr

/-- `eval_` stands together with its `expression_params_`. -/
structure ReaderInfo (α : Type) where
  eval : Option (α → Bool)
  expectedSequence : Int

/-- The arguments that a `write` has after `obtain_buffer`. -/
structure WriteArguments (α : Type) where
  data : α
  sourceTimestamp : Time_t
  filterOut : Option (List Nat)

/-- The sample of an element with the fields of its header, and its `filter_out_`. -/
structure SampleMessage (α : Type) extends WriteArguments α where
  coherentChange : Bool
  groupCoherent : Bool
  contentFilter : Bool
  sequenceRepair : Bool
  sequence : Int

inductive ControlData (κ : Type) where
  | registeredSample (key : κ)
  | coherentChange (control : CoherentChangeControl)

structure ControlMessage (κ : Type) where
  messageId : MessageId
  sequenceRepair : Bool
  sequence : Int
  sourceTimestamp : Time_t
  keyFieldsOnly : Bool
  data : Option (ControlData κ)

/-- The QoS and the participant of a writer, the key fields of its type, and which control
messages the transport takes. -/
structure Config (α κ : Type) where
  limits : ContainerLimits
  autodisposeUnregisteredInstances : Bool
  publisherContentFilter : Bool
  groupCoherent : Bool
  publisherId : Nat
  key : α → κ
  sendControl : ControlMessage κ → Bool

end TypedWriter

open TypedWriter

/-- `registered_sample_` and `unregistered_` belong to the `PublicationInstance` of the
handle. -/
structure TypedDataWriter (α κ : Type) where
  writer : DataWriter
  instanceMap : List (κ × Nat)
  registeredSample : Nat → Option κ
  unregistered : Nat → Bool
  enabled : Bool
  readerInfo : List (Nat × ReaderInfo α)
  sequenceNumber : Int
  coherent : Bool
  coherentSamples : Nat
  blocked : Nat → Option (WriteArguments α)
  messages : Nat → Option (SampleMessage α)
  controls : List (ControlMessage κ)

namespace TypedDataWriter

variable {α κ : Type} [DecidableEq κ]

def create : TypedDataWriter α κ where
  writer := .create
  instanceMap := []
  registeredSample := fun _ => none
  unregistered := fun _ => false
  enabled := false
  readerInfo := []
  sequenceNumber := unknown
  coherent := false
  coherentSamples := 0
  blocked := fun _ => none
  messages := fun _ => none
  controls := []

def setContainer (t : TypedDataWriter α κ) (c : Container) : TypedDataWriter α κ :=
  { t with writer := { t.writer with container := c } }

def getHandleInstance (t : TypedDataWriter α κ) (handle : Nat) : Option PublicationInstance :=
  t.writer.container.getHandleInstance handle

def needSequenceRepair (t : TypedDataWriter α κ) : Bool :=
  t.readerInfo.any fun r => r.2.expectedSequence ≠ t.sequenceNumber

def nextSequence (t : TypedDataWriter α κ) : Int :=
  if t.sequenceNumber = unknown then ofValue minValue else next t.sequenceNumber

/-- `create_control_message`, and the writer after it. The messages about instances take
the next sequence number, and all readers are to expect it. -/
def createControlMessage (t : TypedDataWriter α κ) (messageId : MessageId)
    (data : Option (ControlData κ)) (sourceTimestamp : Time_t) :
    ControlMessage κ × TypedDataWriter α κ :=
  if messageId = .instanceRegistration ∨ messageId = .disposeInstance ∨
      messageId = .unregisterInstance ∨ messageId = .disposeUnregisterInstance then
    let sequence := t.nextSequence
    (⟨messageId, t.needSequenceRepair, sequence, sourceTimestamp, true, data⟩,
      { t with
        sequenceNumber := sequence
        readerInfo := t.readerInfo.map fun r => (r.1, { r.2 with expectedSequence := sequence }) })
  else (⟨messageId, false, unknown, sourceTimestamp, false, data⟩, t)

/-- A control message is created and sent, with whether it was taken. -/
def sendControl (config : Config α κ) (t : TypedDataWriter α κ) (messageId : MessageId)
    (data : Option (ControlData κ)) (sourceTimestamp : Time_t) : Bool × TypedDataWriter α κ :=
  let (message, t) := t.createControlMessage messageId data sourceTimestamp
  (config.sendControl message, { t with controls := t.controls ++ [message] })

/-- The last step of the operations that tell the readers of an instance about it. -/
def reportInstance (config : Config α κ) (t : TypedDataWriter α κ) (messageId : MessageId)
    (handle : Nat) (sourceTimestamp : Time_t) : CallResult × TypedDataWriter α κ :=
  let (taken, t) := t.sendControl config messageId
    ((t.registeredSample handle).map .registeredSample) sourceTimestamp
  (.returned (if taken then .ok else .error), t)

/-- `register_instance_i`, where `next` is the participant's next handle. -/
def registerInstanceI (config : Config α κ) (t : TypedDataWriter α κ) (handle : Nat) (data : κ)
    (sourceTimestamp : Time_t) (next : Nat) : CallResult × TypedDataWriter α κ :=
  if t.enabled = false then (.notEnabled, t)
  else if handle = handleNil then
    match t.writer.container.registerInstance config.limits none next with
    | (.ok, c) =>
      { t.setContainer c with
        registeredSample := Function.update t.registeredSample next (some data)
        unregistered := Function.update t.unregistered next false }.reportInstance config
          .instanceRegistration next sourceTimestamp
    | (ret, c) => (.returned ret, t.setContainer c)
  else
    match t.writer.container.registerInstance config.limits (some handle) next with
    | (.ok, c) =>
      { t.setContainer c with
        unregistered := Function.update t.unregistered handle false }.reportInstance config
          .instanceRegistration handle sourceTimestamp
    | (ret, c) => (.returned ret, t.setContainer c)

/-- The result comes with the handle, which is nil unless it is `RETCODE_OK`. -/
def getOrCreateInstanceHandle (config : Config α κ) (t : TypedDataWriter α κ) (instanceData : α)
    (sourceTimestamp : Time_t) (next : Nat) :
    Option (CallResult × Nat × TypedDataWriter α κ) :=
  let key := config.key instanceData
  match t.instanceMap.lookup key with
  | some handle => do
    let _ ← t.getHandleInstance handle
    if t.unregistered handle = false then some (.returned .ok, handle, t)
    else
      match t.registerInstanceI config handle key sourceTimestamp next with
      | (.returned .ok, t) => some (.returned .ok, handle, t)
      | (ret, t) => some (ret, handleNil, t)
  | none =>
    match t.registerInstanceI config handleNil key sourceTimestamp next with
    | (.returned .ok, t) =>
      some (.returned .ok, next, { t with instanceMap := (key, next) :: t.instanceMap })
    | (ret, t) => some (ret, handleNil, t)

/-- The handle that the caller gets, nil when the registration failed. -/
def registerInstanceWTimestamp (config : Config α κ) (t : TypedDataWriter α κ)
    (instanceData : α) (sourceTimestamp : Time_t) (next : Nat) :
    Option (Nat × TypedDataWriter α κ) :=
  (t.getOrCreateInstanceHandle config instanceData sourceTimestamp next).map Prod.snd

def lookupInstance (config : Config α κ) (t : TypedDataWriter α κ) (instanceData : α) : Nat :=
  (t.instanceMap.lookup (config.key instanceData)).getD handleNil

/-- The readers that should not get the sample, if any of them has a filter. -/
def filterOut (config : Config α κ) (t : TypedDataWriter α κ) (instanceData : α) :
    Option (List Nat) :=
  if config.publisherContentFilter ∧ t.readerInfo.any fun r => r.2.eval.isSome then
    some (t.readerInfo.filterMap fun r =>
      r.2.eval.bind fun eval => if eval instanceData then none else some r.1)
  else none

/-- `DataWriterImpl::write` from `create_sample_data_message` on. -/
def writeObtained (config : Config α κ) (t : TypedDataWriter α κ) (element handle : Nat)
    (arguments : WriteArguments α) : Option (CallResult × TypedDataWriter α κ) :=
  match t.getHandleInstance handle with
  | none => some (.returned .error, { t with writer := { t.writer with holder := .idle } })
  | some _ => do
    let sequence := t.nextSequence
    let message : SampleMessage α := {
      toWriteArguments := arguments
      coherentChange := t.coherent
      groupCoherent := config.groupCoherent
      contentFilter := arguments.filterOut.isSome
      sequenceRepair := t.needSequenceRepair
      sequence }
    let w ← t.writer.step config.limits .enqueue
    let w ← w.step config.limits .sendUnsent
    let excluded := arguments.filterOut.getD []
    some (.returned .ok, { t with
      writer := w
      sequenceNumber := sequence
      messages := Function.update t.messages element (some message)
      readerInfo := t.readerInfo.map fun r =>
        if r.1 ∈ excluded then r else (r.1, { r.2 with expectedSequence := sequence })
      coherentSamples := if t.coherent then t.coherentSamples + 1 else t.coherentSamples })

/-- `write` behind a return of `obtain_buffer`, or where that waits. -/
def proceed (config : Config α κ) (t : TypedDataWriter α κ) (element handle : Nat)
    (arguments : WriteArguments α) :
    Container.Obtained × Container → Option (CallResult × TypedDataWriter α κ)
  | (.buffer, c) =>
    { t with writer := t.writer.settle element handle (.buffer, c) }.writeObtained config
      element handle arguments
  | (.failed ret, c) =>
    some (.returned ret, { t with writer := t.writer.settle element handle (.failed ret, c) })
  | (.waits wait, c) =>
    some (.waits, { t with
      writer := t.writer.settle element handle (.waits wait, c)
      blocked := Function.update t.blocked element (some arguments) })

/-- `DataWriterImpl::write`, with the address that the new element takes. -/
def write (config : Config α κ) (t : TypedDataWriter α κ) (element handle : Nat)
    (arguments : WriteArguments α) (expired : Bool) :
    Option (CallResult × TypedDataWriter α κ) :=
  if t.enabled = false then some (.notEnabled, t)
  else do
    let obtained ← t.writer.container.obtainBuffer config.limits element handle expired
    t.proceed config element handle arguments obtained

/-- A `write` that waits in `obtain_buffer` is woken. -/
def wake (config : Config α κ) (t : TypedDataWriter α κ) (element : Nat)
    (result : Container.WaitResult) (expired : Bool) :
    Option (CallResult × TypedDataWriter α κ) := do
  let thread ← t.writer.findWriter element
  let arguments ← t.blocked element
  let obtained ←
    t.writer.container.resume config.limits element thread.handle thread.wait result expired
  let w := { t.writer with waiting := t.writer.waiting.filter fun u => u.element ≠ element }
  { t with writer := w }.proceed config element thread.handle arguments obtained

def writeWTimestamp (config : Config α κ) (t : TypedDataWriter α κ) (element : Nat)
    (instanceData : α) (handle : Nat) (sourceTimestamp : Time_t) (next : Nat) (expired : Bool) :
    Option (CallResult × TypedDataWriter α κ) :=
  if handle = handleNil then do
    let (ret, handle, t) ← t.getOrCreateInstanceHandle config instanceData sourceTimestamp next
    if ret = .returned .ok then
      t.write config element handle
        ⟨instanceData, sourceTimestamp, t.filterOut config instanceData⟩ expired
    else some (ret, t)
  else
    t.write config element handle
      ⟨instanceData, sourceTimestamp, t.filterOut config instanceData⟩ expired

/-- `DataWriterImpl::dispose`. -/
def dispose (config : Config α κ) (t : TypedDataWriter α κ) (handle : Nat)
    (sourceTimestamp : Time_t) : Option (CallResult × TypedDataWriter α κ) :=
  if t.enabled = false then some (.notEnabled, t)
  else do
    let (ret, c) ← t.writer.container.dispose handle
    if ret = .ok then
      some ((t.setContainer c).reportInstance config .disposeInstance handle sourceTimestamp)
    else some (.returned ret, t.setContainer c)

def disposeWTimestamp (config : Config α κ) (t : TypedDataWriter α κ) (instanceData : α)
    (instanceHandle : Nat) (sourceTimestamp : Time_t) :
    Option (CallResult × TypedDataWriter α κ) :=
  if instanceHandle = handleNil then
    let instanceHandle := t.lookupInstance config instanceData
    if instanceHandle = handleNil then some (.returned .error, t)
    else t.dispose config instanceHandle sourceTimestamp
  else t.dispose config instanceHandle sourceTimestamp

/-- `WriteDataContainer::unregister` and the message about it. -/
def unregisterWithContainer (config : Config α κ) (t : TypedDataWriter α κ) (handle : Nat)
    (sourceTimestamp : Time_t) : CallResult × TypedDataWriter α κ :=
  match t.getHandleInstance handle with
  | none => (.returned .preconditionNotMet, t)
  | some _ =>
    { t with unregistered := Function.update t.unregistered handle true }.reportInstance config
      .unregisterInstance handle sourceTimestamp

/-- What comes of the automatic dispose does not matter. -/
def unregisterInstanceI (config : Config α κ) (t : TypedDataWriter α κ) (handle : Nat)
    (sourceTimestamp : Time_t) : Option (CallResult × TypedDataWriter α κ) :=
  if t.enabled = false then some (.notEnabled, t)
  else if config.autodisposeUnregisteredInstances then do
    let (_, t) ← t.dispose config handle sourceTimestamp
    some (t.unregisterWithContainer config handle sourceTimestamp)
  else some (t.unregisterWithContainer config handle sourceTimestamp)

/-- The handle is checked against the one of the key, and passed on as it was given. -/
def unregisterInstanceWTimestamp (config : Config α κ) (t : TypedDataWriter α κ)
    (instanceData : α) (handle : Nat) (sourceTimestamp : Time_t) :
    Option (CallResult × TypedDataWriter α κ) :=
  let registeredHandle := t.lookupInstance config instanceData
  if registeredHandle = handleNil then some (.returned .error, t)
  else if handle ≠ handleNil ∧ handle ≠ registeredHandle then some (.returned .error, t)
  else t.unregisterInstanceI config handle sourceTimestamp

def unregisterInstances (config : Config α κ) (sourceTimestamp : Time_t) :
    List Nat → TypedDataWriter α κ → Option (TypedDataWriter α κ)
  | [], t => some t
  | handle :: rest, t => do
    let (_, t) ← t.unregisterInstanceI config handle sourceTimestamp
    unregisterInstances config sourceTimestamp rest t

def beginCoherentChanges (t : TypedDataWriter α κ) : TypedDataWriter α κ :=
  { t with coherent := true }

def endCoherentChanges (config : Config α κ) (t : TypedDataWriter α κ)
    (sourceTimestamp : Time_t) : TypedDataWriter α κ :=
  let control : CoherentChangeControl := {
    coherentSamples := ⟨t.coherentSamples, t.sequenceNumber⟩
    groupCoherent := config.groupCoherent
    publisherId := if config.groupCoherent then config.publisherId else guidUnknown }
  let (_, t) := t.sendControl config .endCoherentChanges (some (.coherentChange control))
    sourceTimestamp
  { t with coherent := false, coherentSamples := 0 }

/-- What a typed writer is asked to do. Its associations change what it knows of its
readers, and `container` are those of its operations that no key or handle is given to. -/
inductive Call (α : Type) where
  | enable
  | associate (readerInfo : List (Nat × ReaderInfo α))
  | beginCoherentChanges
  | endCoherentChanges (sourceTimestamp : Time_t)
  | registerInstance (instanceData : α) (sourceTimestamp : Time_t) (next : Nat)
  | write (element : Nat) (instanceData : α) (handle : Nat) (sourceTimestamp : Time_t)
      (next : Nat) (expired : Bool)
  | wake (element : Nat) (result : Container.WaitResult) (expired : Bool)
  | dispose (instanceData : α) (instanceHandle : Nat) (sourceTimestamp : Time_t)
  | unregisterInstance (instanceData : α) (handle : Nat) (sourceTimestamp : Time_t)
  | unregisterInstances (sourceTimestamp : Time_t)
  | container (op : Operation)

def call (config : Config α κ) (t : TypedDataWriter α κ) :
    Call α → Option (TypedDataWriter α κ)
  | .enable => some { t with enabled := true }
  | .associate readerInfo => some { t with readerInfo }
  | .beginCoherentChanges => some t.beginCoherentChanges
  | .endCoherentChanges sourceTimestamp => some (t.endCoherentChanges config sourceTimestamp)
  | .registerInstance instanceData sourceTimestamp next =>
    (t.registerInstanceWTimestamp config instanceData sourceTimestamp next).map Prod.snd
  | .write element instanceData handle sourceTimestamp next expired =>
    (t.writeWTimestamp config element instanceData handle sourceTimestamp next expired).map Prod.snd
  | .wake element result expired => (t.wake config element result expired).map Prod.snd
  | .dispose instanceData instanceHandle sourceTimestamp =>
    (t.disposeWTimestamp config instanceData instanceHandle sourceTimestamp).map Prod.snd
  | .unregisterInstance instanceData handle sourceTimestamp =>
    (t.unregisterInstanceWTimestamp config instanceData handle sourceTimestamp).map Prod.snd
  | .unregisterInstances sourceTimestamp =>
    unregisterInstances config sourceTimestamp
      (t.writer.container.instances.map (·.instanceHandle)) t
  | .container op => (t.writer.step config.limits op).map fun w => { t with writer := w }

/-- The operations of the container that a typed writer makes in its own calls. -/
def ownOperation : Operation → Bool
  | .registerInstance _ _ => true
  | .obtainBuffer _ _ _ => true
  | .wake _ _ _ => true
  | .enqueue => true
  | .sendUnsent => true
  | .dispose _ => true
  | _ => false

/-- What the participant and the transport see to: handles are counted from above the nil
handle, memory is handed out once, and the transport gives back what it has. -/
def Allowed (t : TypedDataWriter α κ) : Call α → Prop
  | .registerInstance _ _ next => next ≠ handleNil
  | .write element _ _ _ next _ => next ≠ handleNil ∧ element ∉ t.writer.container.allocated
  | .container op => ownOperation op = false ∧ t.writer.Allowed op
  | _ => True

def Calls (config : Config α κ) (t : TypedDataWriter α κ) (c : Call α)
    (t' : TypedDataWriter α κ) : Prop :=
  t.Allowed c ∧ t.call config c = some t'

end TypedDataWriter

end OpenDDS.Source
