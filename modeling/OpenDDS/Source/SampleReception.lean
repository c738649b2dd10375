import OpenDDS.Source.QosHelper
import OpenDDS.Source.WriterInfo
import Mathlib.Data.List.Sort

/-!
`DataReaderImpl::data_received` (dds/DCPS/DataReaderImpl.cpp) and the coherent part of
`SubscriberImpl` (dds/DCPS/SubscriberImpl.cpp), one message at a time as the lock of the
samples orders them. A reader is named by its address, the order of `datareader_set_`.

The samples of all instances of a reader are one list, since accepting and rejecting a
coherent set goes over all instances. Whether a sample is filtered and whether it is stored
is decided by `filter_sample` and `dds_demarshal`, and comes with the message, as do the
time and the outcome of sending. Statuses, listeners and conditions leave no trace here;
the verdicts of `SubscriberImpl::coherent_change_received` are recorded.
-/
namespace OpenDDS.Source.SampleReception
open DisjointSequence

/-- The fields of a `ReceivedDataElement` that the coherent filters read. -/
structure Element where
  sequence : Int
  pub : Nat
  publisherId : Nat
  coherentChange : Bool
  deriving DecidableEq, Repr

inductive AccessScope where
  | instancePresentation
  | topicPresentation
  | groupPresentation
  deriving DecidableEq, Repr

structure Reader where
  writers : List WriterInfo
  samples : List Element

structure Subscriber where
  accessScope : AccessScope
  coherentAccess : Bool
  readers : Nat → Reader
  datareaderSet : List Nat
  decisions : List (Nat × CoherentState)

/-- `expired` is left by `filter_sample`, `filtered` by `dds_demarshal`; a sample may also
be refused by a limit without being filtered. -/
inductive Outcome where
  | expired
  | filtered
  | refused
  | stored
  deriving DecidableEq, Repr

inductive Message where
  | data (header : SampleHeader) (outcome : Outcome) (now : Int) (sent : Bool)
  | requestAck (header : SampleHeader) (ack : Int) (delay : Duration_t) (now : Int) (sent : Bool)
  | endCoherentChanges (header : SampleHeader) (control : CoherentChangeControl)

/-- The number of microseconds in a second and `ACE_Time_Value::max_time`. -/
def second : Int := 1000000
def maxTimeSec : Int := 2 ^ 63 - 1
def maxTime : Int := maxTimeSec * second + (second - 1)

def durationToAbsoluteTimeValue (t : Duration_t) (now : Int) : Int :=
  let time := t.sec.toInt * second + t.nanosec.toNat / 1000 + now
  if time / second > maxTimeSec then maxTime else time

namespace Reader

def findWriter (r : Reader) (id : Nat) : Option WriterInfo :=
  r.writers.find? fun w => w.writerId = id

def setWriter (r : Reader) (writer : WriterInfo) : Reader :=
  { r with writers := r.writers.map fun w => if w.writerId = writer.writerId then writer else w }

/-- The elements `CoherentFilter` selects: by publisher when there is one, else by writer. -/
def coherentFilter (writer publisher : Nat) (e : Element) : Bool :=
  e.coherentChange &&
    if publisher ≠ guidUnknown then publisher = e.publisherId else writer = e.pub

def acceptCoherent (r : Reader) (writer publisher : Nat) : Reader :=
  { r with samples := r.samples.map fun e =>
      if coherentFilter writer publisher e then { e with coherentChange := false } else e }

def resetCoherentInfo (r : Reader) (writer publisher : Nat) : Reader :=
  { r with writers := r.writers.map fun w =>
      if w.writerId = writer ∧ w.publisherId = publisher then w.resetCoherentInfo else w }

def rejectCoherent (r : Reader) (writer publisher : Nat) : Reader :=
  { r with samples := r.samples.filter fun e => !coherentFilter writer publisher e }.resetCoherentInfo
    writer publisher

/-- The loop of `DataReaderImpl::coherent_change_received`, with the result so far. -/
def verdict (publisher : Nat) (result : CoherentState) : List WriterInfo → Except Fault CoherentState
  | [] => .ok result
  | w :: rest =>
    if w.publisherId = publisher then
      match w.coherentChangeReceived with
      | .error fault => .error fault
      | .ok .notCompletedYet => .ok .notCompletedYet
      | .ok .rejected => verdict publisher .rejected rest
      | .ok .completed => verdict publisher result rest
    else verdict publisher result rest

def coherentChangeReceived (r : Reader) (publisher : Nat) : Except Fault CoherentState :=
  verdict publisher .completed r.writers

end Reader

namespace Subscriber

def setReader (s : Subscriber) (reader : Nat) (r : Reader) : Subscriber :=
  { s with readers := Function.update s.readers reader r }

/-- An operation on each reader of `datareader_set_`. -/
def forReaders (s : Subscriber) (f : Reader → Reader) : Subscriber :=
  { s with readers := fun reader =>
      if reader ∈ s.datareaderSet then f (s.readers reader) else s.readers reader }

def recordDecision (s : Subscriber) (publisher : Nat) (state : CoherentState) : Subscriber :=
  { s with decisions := s.decisions ++ [(publisher, state)] }

/-- The first loop of `SubscriberImpl::coherent_change_received`. -/
def verdict (readers : Nat → Reader) (publisher : Nat) (result : CoherentState) :
    List Nat → Except Fault CoherentState
  | [] => .ok result
  | reader :: rest =>
    match (readers reader).coherentChangeReceived publisher with
    | .error fault => .error fault
    | .ok .notCompletedYet => .ok .notCompletedYet
    | .ok .rejected => verdict readers publisher .rejected rest
    | .ok .completed => verdict readers publisher result rest

/-- `SubscriberImpl::coherent_change_received`. The writer it names to the readers is
`GUID_UNKNOWN`. -/
def coherentChangeReceived (s : Subscriber) (publisher : Nat) :
    Except Fault (CoherentState × Subscriber) :=
  match verdict s.readers publisher .completed s.datareaderSet with
  | .error fault => .error fault
  | .ok .notCompletedYet => .ok (.notCompletedYet, s)
  | .ok .rejected => .ok (.rejected, (s.forReaders fun r =>
      r.rejectCoherent guidUnknown publisher).recordDecision publisher .rejected)
  | .ok .completed => .ok (.completed, (s.forReaders fun r =>
      (r.acceptCoherent guidUnknown publisher).resetCoherentInfo guidUnknown publisher).recordDecision
        publisher .completed)

/-- `verify_coherent_changes_completion`; the result is not used further here. -/
def verifyCoherentChangesCompletion (s : Subscriber) (reader : Nat) (writer : WriterInfo) :
    Except Fault Subscriber :=
  let r := s.readers reader
  if s.accessScope = .instancePresentation ∨ !s.coherentAccess then
    .ok (s.setReader reader (r.acceptCoherent writer.writerId writer.publisherId))
  else
    match writer.coherentChangeReceived with
    | .error fault => .error fault
    | .ok state =>
      if writer.groupCoherent then
        if state ≠ .notCompletedYet then (s.coherentChangeReceived writer.publisherId).map Prod.snd
        else .ok s
      else
        match state with
        | .completed => .ok (s.setReader reader
            ((r.acceptCoherent writer.writerId writer.publisherId).setWriter
              writer.resetCoherentInfo))
        | .rejected => .ok (s.setReader reader
            ((r.rejectCoherent writer.writerId writer.publisherId).setWriter
              writer.resetCoherentInfo))
        | .notCompletedYet => .ok s

/-- `SubscriberImpl::data_received`. -/
def readerWithData (s : Subscriber) (reader : Nat) : Subscriber :=
  if reader ∈ s.datareaderSet then s
  else { s with datareaderSet := s.datareaderSet.orderedInsert (· ≤ ·) reader }

def writerActivity (s : Subscriber) (reader : Nat) (header : SampleHeader) :
    Except Fault Subscriber :=
  match (s.readers reader).findWriter header.publicationId with
  | none => .ok s
  | some w =>
    match w.writerActivity header with
    | .error fault => .error fault
    | .ok w => .ok (s.setReader reader ((s.readers reader).setWriter w))

def store (s : Subscriber) (reader : Nat) (header : SampleHeader) : Subscriber :=
  let r := s.readers reader
  s.setReader reader { r with samples := r.samples ++
    [⟨header.sequence, header.publicationId, header.publisherId, header.coherentChange⟩] }

/-- A sample that was not filtered, from the search of its writer on. -/
def acceptData (s : Subscriber) (reader : Nat) (header : SampleHeader) (now : Int) (sent : Bool) :
    Except Fault (Option Int × Subscriber) :=
  match (s.readers reader).findWriter header.publicationId with
  | none => .ok (none, s)
  | some w =>
    let acked := (w.countCoherent header).acknowledge header.sequence now sent
    let s := s.setReader reader ((s.readers reader).setWriter acked.2)
    if header.coherentChange then
      (s.verifyCoherentChangesCompletion reader acked.2).map (acked.1, ·)
    else .ok (acked.1, s)

/-- `data_received`, with the number of the SAMPLE_ACK it sends. -/
def dataReceived (s : Subscriber) (reader : Nat) :
    Message → Except Fault (Option Int × Subscriber)
  | .data header outcome now sent =>
    match s.writerActivity reader header with
    | .error fault => .error fault
    | .ok s =>
      match outcome with
      | .expired => .ok (none, s)
      | .filtered => .ok (none, s.readerWithData reader)
      | .refused => (s.readerWithData reader).acceptData reader header now sent
      | .stored => ((s.readerWithData reader).store reader header).acceptData reader header now sent
  | .requestAck header ack delay now sent =>
    match s.writerActivity reader header with
    | .error fault => .error fault
    | .ok s =>
      match (s.readers reader).findWriter header.publicationId with
      | none => .ok (none, s)
      | some w =>
        let acked := (w.ackDeadline ack (durationToAbsoluteTimeValue delay now)).acknowledge
          ack now sent
        .ok (acked.1, s.setReader reader ((s.readers reader).setWriter acked.2))
  | .endCoherentChanges header control =>
    match s.writerActivity reader header with
    | .error fault => .error fault
    | .ok s =>
      match (s.readers reader).findWriter header.publicationId with
      | none => .ok (none, s)
      | some w =>
        let w := w.setGroupInfo control
        let s := s.setReader reader ((s.readers reader).setWriter w)
        (s.verifyCoherentChangesCompletion reader w).map (none, ·)

/-- The subscriber after a message, where it raises nothing. -/
def deliver (s : Subscriber) (reader : Nat) (m : Message) : Subscriber :=
  match s.dataReceived reader m with
  | .ok (_, after) => after
  | .error _ => s

theorem dataReceived_deliver {s : Subscriber} {reader : Nat} {m : Message}
    (h : (s.dataReceived reader m).toOption.isSome) :
    ∃ ack, s.dataReceived reader m = .ok (ack, s.deliver reader m) := by
  unfold deliver
  cases hres : s.dataReceived reader m with
  | error fault =>
    rw [hres] at h
    cases h
  | ok result => exact ⟨result.1, rfl⟩

end Subscriber

section

def number : Message → Option Int
  | .data header _ _ _ => some header.sequence
  | _ => none

def received (ms : List Message) : List Int := ms.filterMap number

theorem received_concat (ms : List Message) (m : Message) : received (ms ++ [m]) = received ms ++ (number m).toList := by
  rw [received, List.filterMap_append]
  cases m <;> rfl

end

section

variable {s : Subscriber} {w w' : WriterInfo} {writer : Nat} {header : SampleHeader}

theorem findWriter_single {r : Reader} (h : r.writers = [w]) (hid : w.writerId = writer) :
    r.findWriter writer = some w := by
  simp [Reader.findWriter, h, hid]

theorem setWriter_single {r : Reader} (h : r.writers = [w]) (hid : w'.writerId = w.writerId) :
    r.setWriter w' = { r with writers := [w'] } := by
  simp [Reader.setWriter, h, hid]

theorem writerActivity_single (hwriters : (s.readers 0).writers = [w])
    (hid : w.writerId = header.publicationId) (hactivity : w.writerActivity header = .ok w')
    (hid' : w'.writerId = w.writerId) :
    s.writerActivity 0 header = .ok (s.setReader 0 { s.readers 0 with writers := [w'] }) := by
  unfold Subscriber.writerActivity
  rw [findWriter_single hwriters hid]
  simp only [hactivity, setWriter_single hwriters hid']

theorem readerWithData_readers (s : Subscriber) (reader : Nat) :
    (s.readerWithData reader).readers = s.readers := by
  unfold Subscriber.readerWithData
  split <;> rfl

end

end OpenDDS.Source.SampleReception
