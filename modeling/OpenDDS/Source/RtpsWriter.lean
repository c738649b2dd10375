import OpenDDS.Library.Run
import OpenDDS.Source.RtpsMessages

/-!
One reliable RTPS writer in `RtpsUdpDataLink`
(dds/DCPS/transport/rtps_udp/RtpsUdpDataLink.cpp) with its `SingleSendBuffer`
(dds/DCPS/transport/framework/TransportSendBuffer.cpp): customizing queue elements,
storing sent packets, receiving ACKNACK and NACK_FRAG, the nack-reply timer and the
heartbeat timer. The send buffer is the ordered list of the sequence numbers it
stores; packets, fragments and network addresses are left out, so a resend is the
number resent.

The state also keeps every sequence number customized so far and, with each GAP
submessage the nack-reply timer sends, the numbers customized up to that moment.
-/
namespace OpenDDS.Source.RtpsWriter
open Library.RangeList SequenceNumber DisjointSequence RtpsMessages

inductive WriterFault where
  | sequence (fault : Fault)
  /-- A method called through a nil `send_buff_`. -/
  | nilSendBuffer
  deriving DecidableEq, Repr

structure AckNackSubmessage where
  readerId : Nat
  final : Bool
  readerSNState : SequenceNumberSet
  count : Int

/-- NACK_FRAG; the requested fragments only select what is resent. -/
structure NackFragSubmessage where
  readerId : Nat
  writerSN : SequenceNumber_t
  count : Int

/-- `RtpsUdpDataLink::ReaderInfo`. `durable_data_` is its list of keys, `durableResent`
says that `durable_timestamp_` is not zero, and `located` that `locators_` has an entry. -/
structure ReaderInfo where
  id : Nat
  acknackRecvdCount : Int
  nackfragRecvdCount : Int
  requestedChanges : List SequenceNumberSet
  requestedFrags : List Int
  handshakeDone : Bool
  durable : Bool
  durableData : List Int
  durableResent : Bool
  located : Bool

def ReaderInfo.associated (id : Nat) (durable located : Bool) : ReaderInfo :=
  { id := id, acknackRecvdCount := 0, nackfragRecvdCount := 0, requestedChanges := [],
    requestedFrags := [], handshakeDone := false, durable := durable, durableData := [],
    durableResent := false, located := located }

/-- `RtpsUdpDataLink::RtpsWriter`; `none` stands for a nil `send_buff_`. -/
structure Writer where
  remoteReaders : List ReaderInfo
  sendBuff : Option (List Int)
  expected : Int
  heartbeatCount : Int
  durable : Bool

/-- A GAP submessage; an empty list of readers stands for one that is not directed. -/
structure Gap where
  gapStart : Int
  gapListBase : Int
  numBits : Nat
  bitmap : Bitmap
  readers : List Nat

def Gap.Declares (gap : Gap) (n : Int) : Prop :=
  (gap.gapStart ≤ n ∧ n < gap.gapListBase) ∨
  ∃ k : Nat, k < gap.numBits ∧ bitSet gap.bitmap k = true ∧ n = gap.gapListBase + k

def expectingDurableData (ri : ReaderInfo) : Bool :=
  ri.durable && (!ri.durableResent || !ri.durableData.isEmpty)

def insertKey (seq : Int) : List Int → List Int
  | [] => [seq]
  | x :: xs => if x < seq then x :: insertKey seq xs else if x = seq then x :: xs else seq :: x :: xs

/-- `SingleSendBuffer::insert`, which ages off the oldest sample at capacity. -/
def sendBufferInsert (capacity : Nat) (buffers : List Int) (seq : Int) : List Int :=
  insertKey seq (if buffers.length = capacity then buffers.tail else buffers)

/-- `RtpsWriter::heartbeat_high`; a literal zero becomes sequence number one. -/
def heartbeatHigh (w : Writer) (ri : ReaderInfo) : Int :=
  let durableMax := (ri.durableData.getLast?).getD (ofValue 0)
  let dataMax := ((w.sendBuff.getD []).getLast?).getD (ofValue 0)
  max durableMax dataMax

def updateReader (w : Writer) (id : Nat) (f : ReaderInfo → ReaderInfo) : Writer :=
  { w with remoteReaders := w.remoteReaders.map fun ri => if ri.id = id then f ri else ri }

/-- The inline GAP of `add_gap_submsg` for a sample that is not directed. -/
def addGapSubmsg (w : Writer) (seq : Int) : Option Gap :=
  if w.remoteReaders.any expectingDurableData then none
  else if seq ≠ w.expected then
    some { gapStart := w.expected, gapListBase := seq, numBits := 1, bitmap := fun _ => 0,
           readers := [] }
  else none

/-- `customize_queue_element` for a new sample: the inline GAP and the writer. -/
def customizeQueueElement (w : Writer) (seq : Int) : Option Gap × Writer :=
  (addGapSubmsg w seq, { w with expected := next seq })

/-- `customize_queue_element` for a historic sample directed to one reader: it is stored
until the reader requests it. -/
def customizeDurable (w : Writer) (reader : Nat) (seq : Int) : Writer :=
  updateReader { w with expected := next seq } reader fun ri =>
    { ri with durableData := insertKey seq ri.durableData, durableResent := true }

/-- `MultiSendBuffer::insert`, called when the packet of the sample is sent. -/
def multiSendBufferInsert (capacity : Nat) (w : Writer) (seq : Int) : Writer :=
  { w with sendBuff := some (sendBufferInsert capacity (w.sendBuff.getD []) seq) }

def liftFault {α : Type} : Except Fault α → Except WriterFault α
  | .error fault => .error (.sequence fault)
  | .ok a => .ok a

def durabilityGaps : Int → List Int → List Range → Except Fault (List Range)
  | _, [], gaps => .ok gaps
  | lastSent, seq :: rest, gaps =>
    if seq > lastSent + 1 then
      match insertI gaps (ofValue (lastSent + 1), previous seq) with
      | .error fault => .error fault
      | .ok (_, gaps) => durabilityGaps seq rest gaps
    else durabilityGaps seq rest gaps

/-- The reply to nacks for durable data: whether some was sent, and the gaps sent to the
reader with it. -/
def durabilityReply (fuel : Nat) (w : Writer) (ri : ReaderInfo) (acknack : AckNackSubmessage) :
    Except Fault (Bool × List Range) :=
  let ack := acknack.readerSNState.bitmapBase.value
  match insertBits fuel [] ack acknack.readerSNState.numBits acknack.readerSNState.bitmap with
  | .error fault => .error fault
  | .ok (grew, requests) =>
    let requests := if !grew && !acknack.final && decide (ack = heartbeatHigh w ri) &&
      ri.durableData.contains ack then [(ack, ack)] else requests
    let resent := ri.durableData.filter fun seq => contains requests seq
    match durabilityGaps (low requests - 1) resent [] with
    | .error fault => .error fault
    | .ok gaps =>
      if gaps.isEmpty && resent.isEmpty && !requests.isEmpty &&
          decide (high requests < ri.durableData.headD 0) then .ok (false, requests)
      else .ok (!resent.isEmpty, gaps)

def receivedAckNack (fuel : Nat) (w : Writer) (ri : ReaderInfo) (acknack : AckNackSubmessage) :
    Except WriterFault Writer :=
  if acknack.count ≤ ri.acknackRecvdCount then .ok w
  else
    let ack := acknack.readerSNState.bitmapBase.value
    let record := fun ri : ReaderInfo =>
      { ri with acknackRecvdCount := acknack.count, handshakeDone := true }
    let request := fun ri : ReaderInfo =>
      if acknack.final then record ri
      else { record ri with requestedChanges := ri.requestedChanges ++ [acknack.readerSNState] }
    match ri.durableData.getLast? with
    | none => .ok (updateReader w ri.id request)
    | some durableMax =>
      if ack > durableMax then
        .ok (updateReader w ri.id fun ri => { request ri with durableData := [] })
      else
        match liftFault (durabilityReply fuel w ri acknack) with
        | .error fault => .error fault
        | .ok (sentSome, _) => .ok (updateReader w ri.id (if sentSome then record else request))

def receivedNackFrag (w : Writer) (ri : ReaderInfo) (nackfrag : NackFragSubmessage) : Writer :=
  if nackfrag.count ≤ ri.nackfragRecvdCount then w
  else updateReader w ri.id fun ri =>
    { ri with nackfragRecvdCount := nackfrag.count,
              requestedFrags := insertKey nackfrag.writerSN.value ri.requestedFrags }

/-- The test in `send_nack_replies` for an ACKNACK without a set bit. -/
def requestsHeartbeatHigh (w : Writer) (ri : ReaderInfo) (sn : SequenceNumberSet) : Bool :=
  sn.numBits == 1 && (sn.bitmap 0 &&& 1#32) == 0 && sn.bitmapBase.value == heartbeatHigh w ri

/-- One entry of `requested_changes_`, added to the consolidated requests. -/
def addRequest (fuel : Nat) (w : Writer) (ri : ReaderInfo) (requests : List Range)
    (sn : SequenceNumberSet) : Except Fault (List Range) :=
  if requestsHeartbeatHigh w ri sn then
    if (w.sendBuff.getD []).contains sn.bitmapBase.value then
      match DisjointSequence.insert requests sn.bitmapBase.value with
      | .error fault => .error fault
      | .ok (_, requests) => .ok requests
    else .ok requests
  else
    match insertBits fuel requests sn.bitmapBase.value sn.numBits sn.bitmap with
    | .error fault => .error fault
    | .ok (_, requests) => .ok requests

def addRequests (fuel : Nat) (w : Writer) (requests : List Range) :
    List (ReaderInfo × SequenceNumberSet) → Except Fault (List Range)
  | [] => .ok requests
  | (ri, sn) :: rest =>
    match addRequest fuel w ri requests sn with
    | .error fault => .error fault
    | .ok requests => addRequests fuel w requests rest

/-- The entries of `requested_changes_` of all readers, in the order they are visited. -/
def pendingChanges (w : Writer) : List (ReaderInfo × SequenceNumberSet) :=
  w.remoteReaders.flatMap fun ri => ri.requestedChanges.map fun sn => (ri, sn)

/-- The loop of `resend_i` over `count` numbers: those resent and the gaps. -/
def resendLoop (buffers : List Int) : Nat → Int → List Int → List Range →
    Except Fault (List Int × List Range)
  | 0, _, resent, gaps => .ok (resent, gaps)
  | count + 1, seq, resent, gaps =>
    if buffers.contains seq then resendLoop buffers count (next seq) (resent ++ [seq]) gaps
    else
      match DisjointSequence.insert gaps seq with
      | .error fault => .error fault
      | .ok (_, gaps) => resendLoop buffers count (next seq) resent gaps

/-- `resend_i`; incrementing the largest value wraps, so a range that ends there never
ends. -/
def resendI (buffers : List Int) (range : Range) (gaps : List Range) :
    Except Fault (List Int × List Range) :=
  if range.2 = maxValue then .error .iterations
  else resendLoop buffers (range.2 - range.1 + 1).toNat range.1 [] gaps

def resendAll (buffers : List Int) : List Range → List Range → Except Fault (List Range)
  | [], gaps => .ok gaps
  | range :: rest, gaps =>
    match resendI buffers range gaps with
    | .error fault => .error fault
    | .ok (_, gaps) => resendAll buffers rest gaps

/-- The requested numbers that are not in the send buffer. -/
def requestGaps (w : Writer) (requests : List Range) : Except Fault (List Range) :=
  match w.sendBuff with
  | none => .ok requests
  | some buffers => if buffers.isEmpty then .ok requests else resendAll buffers requests []

/-- The gaps `send_nackfrag_replies` adds for samples that are not in the send buffer. -/
def nackfragGaps (w : Writer) : List Int → List Range → Except WriterFault (List Range)
  | [], gaps => .ok gaps
  | seq :: rest, gaps =>
    match w.sendBuff with
    | none => .error .nilSendBuffer
    | some buffers =>
      if buffers.contains seq then nackfragGaps w rest gaps
      else
        match DisjointSequence.insert gaps seq with
        | .error fault => .error (.sequence fault)
        | .ok (_, gaps) => nackfragGaps w rest gaps

def pendingFrags (w : Writer) : List Int :=
  w.remoteReaders.flatMap fun ri => if ri.located then ri.requestedFrags else []

/-- The gap list of `marshal_gaps` and its number of bits. -/
def gapList (gaps : List Range) (memory : Bitmap) : Bitmap × Nat :=
  if disjoint gaps then
    (toBitmap gaps memory (bitmapNumLongs (next (cumulativeAck gaps)) (high gaps)) false).2
  else (setWord memory 0 0, 1)

/-- A durable writer directs its GAPs to the readers that expect no durable data. -/
def gapReaders (w : Writer) : List Nat :=
  if w.durable then (w.remoteReaders.filter fun ri => !expectingDurableData ri).map ReaderInfo.id
  else []

def marshalGaps (w : Writer) (gaps : List Range) (memory : Bitmap) : Option Gap :=
  if w.durable && (gapReaders w).isEmpty then none
  else some { gapStart := low gaps
              gapListBase := next (cumulativeAck gaps)
              numBits := (gapList gaps memory).2
              bitmap := (gapList gaps memory).1
              readers := gapReaders w }

/-- `send_nack_replies` for one writer, with the GAP it sends. -/
def sendNackReplies (fuel : Nat) (w : Writer) (memory : Bitmap) :
    Except WriterFault (Option Gap × Writer) :=
  match liftFault (addRequests fuel w [] (pendingChanges w)) with
  | .error fault => .error fault
  | .ok requests =>
    match liftFault (requestGaps w requests) with
    | .error fault => .error fault
    | .ok gaps =>
      match nackfragGaps w (pendingFrags w) gaps with
      | .error fault => .error fault
      | .ok gaps =>
        .ok (if gaps.isEmpty then none else marshalGaps w gaps memory,
          { w with remoteReaders := w.remoteReaders.map fun ri =>
              { ri with requestedChanges := [],
                        requestedFrags := if ri.located then [] else ri.requestedFrags } })

/-- HEARTBEAT, with its final flag. -/
structure HeartBeat where
  final : Bool
  firstSN : Int
  lastSN : Int
  count : Int
  deriving DecidableEq, Repr

/-- `send_heartbeats` for one writer; `expired` are the readers whose durable data has
timed out. -/
def sendHeartbeats (w : Writer) (expired : List Nat) : Option HeartBeat × Writer :=
  let buffers := w.sendBuff.getD []
  let hasData := !buffers.isEmpty
  let final := w.remoteReaders.all fun ri => ri.handshakeDone || !ri.located
  let w := { w with remoteReaders := w.remoteReaders.map fun ri =>
    if expired.contains ri.id then { ri with durableData := [] } else ri }
  let durableMaxes := w.remoteReaders.filterMap fun ri => ri.durableData.getLast?
  if final && !hasData && durableMaxes.isEmpty then (none, w)
  else
    let durableMax := durableMaxes.foldl max (ofValue minValue)
    (some { final := final
            firstSN := if w.durable || !hasData then 1 else buffers.headD 0
            lastSN := max durableMax (if hasData then buffers.getLast?.getD 0 else 1)
            count := w.heartbeatCount + 1 },
      { w with heartbeatCount := w.heartbeatCount + 1 })

/-- A new entry of `writers_`. -/
def Writer.created : Writer :=
  { remoteReaders := [], sendBuff := none, expected := 1, heartbeatCount := 0, durable := false }

/-- `remote_readers_[remote_id].durable_ = remote_durable`. -/
def setReader (remoteId : Nat) (remoteDurable located : Bool) : List ReaderInfo → List ReaderInfo
  | [] => [ReaderInfo.associated remoteId remoteDurable located]
  | ri :: rest =>
    if ri.id < remoteId then ri :: setReader remoteId remoteDurable located rest
    else if ri.id = remoteId then { ri with durable := remoteDurable } :: rest
    else ReaderInfo.associated remoteId remoteDurable located :: ri :: rest

/-- `associated` for a writer, whose entry is made for its first reader. -/
def associated (entry : Option Writer) (remoteId : Nat) (localDurable remoteDurable located : Bool) :
    Writer :=
  let w := entry.getD .created
  { w with remoteReaders := setReader remoteId remoteDurable located w.remoteReaders
           durable := localDurable }

/-- `release_reservations_i`: the entry goes with its last reader. -/
def releaseReservationsI (w : Writer) (remoteId : Nat) : Option Writer :=
  let remoteReaders := w.remoteReaders.filter fun ri => ri.id ≠ remoteId
  if remoteReaders.isEmpty then none else some { w with remoteReaders := remoteReaders }

inductive Event where
  | customize (seq : Int)
  | customizeDurable (reader : Nat) (seq : Int)
  | sendPacket (seq : Int)
  | acknack (acknack : AckNackSubmessage)
  | nackfrag (nackfrag : NackFragSubmessage)
  | nackReply (memory : Bitmap)
  | heartbeat (expired : List Nat)

structure State where
  writer : Writer
  assigned : List Int
  gaps : List (Gap × List Int)

/-- One event; a submessage of an unknown reader is ignored. -/
def step (capacity fuel : Nat) (s : State) : Event → Except WriterFault State
  | .customize seq =>
    .ok { s with writer := (customizeQueueElement s.writer seq).2, assigned := s.assigned ++ [seq] }
  | .customizeDurable reader seq =>
    .ok { s with writer := customizeDurable s.writer reader seq, assigned := s.assigned ++ [seq] }
  | .sendPacket seq => .ok { s with writer := multiSendBufferInsert capacity s.writer seq }
  | .acknack acknack =>
    match s.writer.remoteReaders.find? fun ri => ri.id = acknack.readerId with
    | none => .ok s
    | some ri =>
      match receivedAckNack fuel s.writer ri acknack with
      | .error fault => .error fault
      | .ok w => .ok { s with writer := w }
  | .nackfrag nackfrag =>
    match s.writer.remoteReaders.find? fun ri => ri.id = nackfrag.readerId with
    | none => .ok s
    | some ri => .ok { s with writer := receivedNackFrag s.writer ri nackfrag }
  | .nackReply memory =>
    match sendNackReplies fuel s.writer memory with
    | .error fault => .error fault
    | .ok (gap, w) =>
      .ok { s with writer := w, gaps := s.gaps ++ gap.toList.map fun g => (g, s.assigned) }
  | .heartbeat expired => .ok { s with writer := (sendHeartbeats s.writer expired).2 }

/-- A writer before its first sample; a reader is given by its id, whether it is durable
and whether its address is known. -/
def State.initial (readers : List (Nat × Bool × Bool)) (durable : Bool) : State :=
  { writer := { remoteReaders := readers.map fun r => ReaderInfo.associated r.1 r.2.1 r.2.2
                sendBuff := none
                expected := 1
                heartbeatCount := 0
                durable := durable }
    assigned := []
    gaps := [] }

/-- New samples take increasing numbers, and only customized samples are sent. -/
def InDomain (s : State) : Event → Prop
  | .customize seq => 1 ≤ seq ∧ ∀ m ∈ s.assigned, m < seq
  | .customizeDurable _ seq => 1 ≤ seq
  | .sendPacket seq => seq ∈ s.assigned
  | _ => True

def Steps (capacity : Nat) (s : State) (e : Event) (after : State) : Prop :=
  InDomain s e ∧ ∃ fuel, step capacity fuel s e = .ok after

end OpenDDS.Source.RtpsWriter
