import OpenDDS.Library.SortedMap

/-!
The liveliness of the writers of a data reader: `WriterInfo::received_activity`,
`check_activity` and `removed` (dds/DCPS/WriterInfo.{h,cpp}) with the callbacks of
`DataReaderImpl` (dds/DCPS/DataReaderImpl.cpp) that count the writers. Times are in
microseconds; `none` stands for `ACE_Time_Value::max_time`. The calls of
`ACE_OS::gettimeofday` are arguments.

What is told to others is recorded: the ownership manager, the instances, the listener, and
the error messages about counts. A timer is known by the time it is due; scheduling succeeds.
-/
namespace OpenDDS.Source.Liveliness

open Library

inductive WriterState where
  | notSet
  | alive
  | dead
  deriving DecidableEq

/-- The fields of `WriterInfo` that liveliness is about. -/
structure Writer where
  lastLivelinessActivityTime : Int
  seenData : Bool
  state : WriterState
  handle : Nat

/-- `DDS::HANDLE_NIL`. -/
def handleNil : Nat := 0

structure LivelinessChangedStatus where
  aliveCount : Int
  notAliveCount : Int
  aliveCountChange : Int
  notAliveCountChange : Int
  lastPublicationHandle : Nat

inductive Effect where
  | ownerRemoved (writerId : Nat)
  | instancesTold (writerId : Nat) (aliveCount : Int) (time : Int)
  | livelinessChanged (status : LivelinessChangedStatus)
  | invalidCount (count : Int)

structure Reader where
  livelinessLeaseDuration : Int
  isExclusiveOwnership : Bool
  isBit : Bool
  entityDeleted : Bool
  hasListener : Bool
  writers : SortedMap Nat Writer
  status : LivelinessChangedStatus
  statusChanged : Bool
  timer : Option Int
  effects : List Effect

namespace Reader

/-- The constructor, with the QoS of the reader and its listener. -/
def create (livelinessLeaseDuration : Int) (isExclusiveOwnership isBit hasListener : Bool) :
    Reader where
  livelinessLeaseDuration := livelinessLeaseDuration
  isExclusiveOwnership := isExclusiveOwnership
  isBit := isBit
  entityDeleted := false
  hasListener := hasListener
  writers := .empty
  status := ⟨0, 0, 0, 0, handleNil⟩
  statusChanged := false
  timer := none
  effects := []

def record (r : Reader) (effect : Effect) : Reader := { r with effects := r.effects ++ [effect] }

def resetChanges (r : Reader) : Reader :=
  { r with status := { r.status with aliveCountChange := 0, notAliveCountChange := 0 } }

def notifyLivelinessChange (r : Reader) : Reader :=
  if r.hasListener then (r.record (.livelinessChanged r.status)).resetChanges else r

def instancesLivelinessUpdate (r : Reader) (writerId : Nat) (time : Int) : Reader :=
  r.record (.instancesTold writerId r.status.aliveCount time)

/-- The writer is no longer the owner of any instance. -/
def removeOwner (r : Reader) (writerId : Nat) : Reader :=
  if r.isExclusiveOwnership then r.record (.ownerRemoved writerId) else r

/-- The counters with one writer more, or one less, alive or not alive. -/
def countAlive (r : Reader) (n : Int) : Reader :=
  { r with status := { r.status with
      aliveCount := r.status.aliveCount + n
      aliveCountChange := r.status.aliveCountChange + n } }

def countNotAlive (r : Reader) (n : Int) : Reader :=
  { r with status := { r.status with
      notAliveCount := r.status.notAliveCount + n
      notAliveCountChange := r.status.notAliveCountChange + n } }

def setLastPublication (r : Reader) (handle : Nat) : Reader :=
  { r with status := { r.status with lastPublicationHandle := handle } }

def setWriter (r : Reader) (writerId : Nat) (info : Writer) : Reader :=
  { r with writers := r.writers.put writerId info }

def eraseWriter (r : Reader) (writerId : Nat) : Reader :=
  { r with writers := r.writers.erase writerId }

def setStatusChanged (r : Reader) : Reader := { r with statusChanged := true }

/-- The message and the early return for a count below zero, if there is one. -/
def invalidCount (r : Reader) : Option Reader :=
  if r.status.aliveCount < 0 then some (r.record (.invalidCount r.status.aliveCount))
  else if r.status.notAliveCount < 0 then some (r.record (.invalidCount r.status.notAliveCount))
  else none

/-- The counters when a writer in some state becomes dead, becomes alive, or goes. -/
def countDead (r : Reader) : WriterState → Reader
  | .notSet => r.countNotAlive 1
  | .alive => (r.countAlive (-1)).countNotAlive 1
  | .dead => r

def countRevived (r : Reader) : WriterState → Reader
  | .notSet => r.countAlive 1
  | .alive => r
  | .dead => (r.countAlive 1).countNotAlive (-1)

def countRemoved (r : Reader) : WriterState → Reader
  | .notSet => r
  | .alive => r.countAlive (-1)
  | .dead => r.countNotAlive (-1)

def writerBecameDead (r : Reader) (writerId : Nat) (info : Writer) (time : Int) : Reader :=
  let r := ((r.removeOwner writerId).countDead info.state).setLastPublication info.handle
  let r := r.setWriter writerId { info with state := .dead, seenData := false }
  match r.invalidCount with
  | some failed => failed
  | none =>
    let r := r.instancesLivelinessUpdate writerId time
    if info.state ≠ .dead then r.setStatusChanged.notifyLivelinessChange else r

/-- `WriterInfo::check_activity`. -/
def checkActivity (r : Reader) (writerId : Nat) (info : Writer) (now : Int) : Option Int × Reader :=
  if info.state = .alive ∧ r.livelinessLeaseDuration ≠ 0 then
    let expiresAt := info.lastLivelinessActivityTime + r.livelinessLeaseDuration
    if expiresAt ≤ now then (none, r.writerBecameDead writerId info now) else (some expiresAt, r)
  else (none, r)

/-- The loop of `handle_timeout` over the writers, with what `check_activity` returned. -/
def checkWriters (now : Int) : List Nat → Reader → List Int × Reader
  | [], r => ([], r)
  | writerId :: rest, r =>
    match r.writers.find writerId with
    | none => checkWriters now rest r
    | some info =>
      let checked := r.checkActivity writerId info now
      let later := checkWriters now rest checked.2
      (checked.1.toList ++ later.1, later.2)

/-- `handle_timeout` at the time `tv`. A timer that is set is cancelled or has fired. -/
def handleTimeout (r : Reader) (tv now : Int) : Reader :=
  let checked := checkWriters tv r.writers.keys r
  match checked.1.min? with
  | none => { checked.2 with timer := none }
  | some smallest =>
    { checked.2 with timer := some (if now < smallest then smallest else now + 1) }

def writerBecameAlive (r : Reader) (writerId : Nat) (info : Writer) (now later : Int) : Reader :=
  let r := ((r.countRevived info.state).setLastPublication info.handle).setStatusChanged
  match r.invalidCount with
  | some failed => failed
  | none =>
    let r := r.setWriter writerId { info with state := .alive }
    let r := if info.state ≠ .alive then r.notifyLivelinessChange else r
    r.handleTimeout now later

/-- `WriterInfo::received_activity`. -/
def receivedActivity (r : Reader) (writerId : Nat) (info : Writer) (time now later : Int) : Reader :=
  let info := { info with lastLivelinessActivityTime := time }
  let r := r.setWriter writerId info
  if info.state ≠ .alive then r.writerBecameAlive writerId info now later else r

/-- `writer_activity` for a message that has a sequence number or not. -/
def writerActivity (r : Reader) (writerId : Nat) (numbered : Bool) (time now later : Int) : Reader :=
  match r.writers.find writerId with
  | none => r
  | some info =>
    let r := r.receivedActivity writerId info time now later
    match r.writers.find writerId with
    | none => r
    | some info =>
      if numbered then r.setWriter writerId { info with seenData := true } else r

def writerRemoved (r : Reader) (writerId : Nat) (info : Writer) (time : Int) : Reader :=
  let r := ((r.removeOwner writerId).countRemoved info.state).setLastPublication info.handle
  let r := r.instancesLivelinessUpdate writerId time
  if info.state ≠ .notSet then r.setStatusChanged.notifyLivelinessChange else r

/-- One round of the loop of `remove_associations`. -/
def removeAssociation (r : Reader) (time : Int) (writerId : Nat) : Reader :=
  match r.writers.find writerId with
  | none => r
  | some info => (r.writerRemoved writerId info time).eraseWriter writerId

def removeAssociations (r : Reader) (writers : List Nat) (time : Int) : Reader :=
  writers.foldl (fun r writerId => r.removeAssociation time writerId) r

/-- The insertion into `writers_`, which leaves a known writer alone. -/
def insertWriter (r : Reader) (writerId : Nat) (now : Int) : Reader :=
  match r.writers.find writerId with
  | some _ => r
  | none => r.setWriter writerId ⟨now, false, .notSet, handleNil⟩

def setHandle (r : Reader) (writerId handle : Nat) : Reader :=
  match r.writers.find writerId with
  | none => r
  | some info => r.setWriter writerId { info with handle := handle }

/-- `add_association`; `associated` says whether the transport succeeded. -/
def addAssociation (r : Reader) (writerId handle : Nat) (associated : Bool) (now later : Int) :
    Reader :=
  if r.entityDeleted then r
  else
    let r := r.insertWriter writerId now
    if associated then
      let r := if r.livelinessLeaseDuration ≠ 0 then r.handleTimeout now later else r
      if r.isBit then r else r.setHandle writerId handle
    else r

def getLivelinessChangedStatus (r : Reader) : LivelinessChangedStatus × Reader :=
  (r.status, { r with statusChanged := false }.resetChanges)

end Reader

end OpenDDS.Source.Liveliness
