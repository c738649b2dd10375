import OpenDDS.Library.BufferRing
import OpenDDS.Library.Run
import OpenDDS.Source.TransportHeader

/-!
# Receiving transport packets

`TransportReceiveStrategy` with the default headers
(dds/DCPS/transport/framework/TransportReceiveStrategy_T.cpp): the bytes of a stream come
in pieces, are kept in a ring of buffers, and are parsed into transport headers, sample
headers and payloads as far as they go.

The ring is the array `receive_buffers_` from `buffer_index_` on. A buffer has the bytes
between its read and write pointers; that its `cont()` is the buffer of the next slot is a
flag, for no other continuation is ever set. The payload is kept as bytes: a chain of blocks
over the buffers, whose memory is not written again while a block refers to it.

A subclass says what it makes of the fragments seen so far, the last one included, each
with the transport header it came behind. The checks of the headers are those of the base
class. The serializer does not align, so that the addresses of its blocks do not matter.
-/
namespace OpenDDS.Source.ReceiveStrategy
open Library Library.Chain Library.BufferRing

def receiveBuffers : Nat := 16

def bufferLowWater : Nat := 4096

def receiveDataBufferSize : Nat := 65536

structure ReceivedDataSample where
  header : DataSampleHeader.Header
  payload : List UInt8

/-- A fragment as `reassemble` gets it. -/
structure Fragment where
  transportHeader : TransportHeader.Header
  sample : ReceivedDataSample

/-- What `reassemble` of a subclass makes of a fragment and those before it. -/
abbrev Reassemble := List Fragment → Option ReceivedDataSample

/-- What was made of the samples so far; `header` is the last sample header. -/
structure Log where
  header : DataSampleHeader.Header
  fragments : List Fragment
  delivered : List ReceivedDataSample

structure Parser where
  transportHeader : TransportHeader.Header
  log : Log
  payload : List UInt8
  receiveSampleRemaining : Nat
  pduRemaining : Nat
  goodPdu : Bool

/-- The strategy between two calls of `handle_dds_input`. -/
structure Strategy extends Parser where
  buffers : List (Option (Buffer UInt8))

structure Receiving extends Parser where
  ring : List (Buffer UInt8)

inductive Failure where
  | disconnected
  | corrupted
  | invalidHeader
  | endless
  | fault (fault : Serializer.Fault)
  deriving DecidableEq

/-- Whether `handle_dds_input` returns, or goes on. -/
inductive Step where
  | returns (r : Receiving)
  | continues (r : Receiving)

def checkHeader (_ : TransportHeader.Header) : Bool := true

def checkSampleHeader (_ : DataSampleHeader.Header) : Bool := true

/-- Subtraction of numbers of type `size_t`. -/
def sizeSub (a b : Nat) : Nat := if b ≤ a then a - b else a + 2 ^ 64 - b

/-- The blocks that a reader of the current buffer sees. -/
def blocks (ring : List (Buffer UInt8)) : Option (List (Block UInt8)) :=
  (chain ring).map fun buffers => buffers.map fun b => ⟨0, b.items⟩

/-- `update_buffer_index`: whether no buffer has data. -/
def updateBufferIndex (r : Receiving) : Bool × Receiving :=
  match seek [] r.ring with
  | none => (true, r)
  | some ring => (false, { r with ring })

def skipBadPdus (r : Receiving) : Except Failure Step :=
  if r.goodPdu then .ok (.continues r)
  else if (unread r.ring).length < r.pduRemaining then .error .corrupted
  else
    let r := { r with
      ring := advance r.pduRemaining r.ring, pduRemaining := 0, receiveSampleRemaining := 0 }
    match updateBufferIndex r with
    | (true, r) => .ok (.returns r)
    | (false, r) => .ok (.continues r)

section

variable (host : ByteOrder) (reassemble : Reassemble)

/-- The part of the outer loop in front of the samples of a packet. -/
def manageTransportHeader (r : Receiving) : Except Failure Step :=
  if r.pduRemaining = 0 then
    match blocks r.ring with
    | none => .error .endless
    | some mb =>
      if (contents mb).length < TransportHeader.maxMarshaledSize then .ok (.returns r)
      else
        match TransportHeader.init host r.transportHeader mb with
        | .error fault => .error (.fault fault)
        | .ok (header, reader) =>
          if header.valid then
            skipBadPdus { r with
              ring := advance ((contents mb).length - (contents reader.current).length) r.ring
              transportHeader := header
              goodPdu := checkHeader header
              pduRemaining := header.length.toNat }
          else .error .invalidHeader
  else skipBadPdus r

/-- The part of the inner loop in front of the payload. -/
def manageSampleHeader (r : Receiving) : Except Failure Step :=
  if r.receiveSampleRemaining = 0 then
    match blocks r.ring with
    | none => .error .endless
    | some mb =>
      if DataSampleHeader.isPartial host mb then .ok (.returns r)
      else
        match DataSampleHeader.init host r.log.header mb with
        | .error fault => .error (.fault fault)
        | .ok d =>
          skipBadPdus { r with
            ring := advance ((contents mb).length - (contents d.reader.current).length) r.ring
            log := { r.log with header := d.header }
            goodPdu := checkSampleHeader d.header
            receiveSampleRemaining := d.header.messageLength.toNat
            pduRemaining := sizeSub r.pduRemaining d.header.marshaledSize }
  else .ok (.continues r)

/-- The payload takes what it needs from the current buffer. -/
def takePayload (r : Receiving) : Receiving :=
  match r.ring with
  | [] => r
  | b :: _ =>
    let amount := min r.receiveSampleRemaining b.items.length
    { r with
      payload := r.payload ++ b.items.take amount
      ring := advance amount r.ring
      receiveSampleRemaining := r.receiveSampleRemaining - amount
      pduRemaining := sizeSub r.pduRemaining amount }

/-- A complete sample is delivered, or given to `reassemble` as a fragment. -/
def Log.accept (transportHeader : TransportHeader.Header) (payload : List UInt8) (log : Log) : Log :=
  let sample : ReceivedDataSample := ⟨log.header, payload⟩
  if log.header.moreFragments || transportHeader.lastFragment then
    let fragments := log.fragments ++ [⟨transportHeader, sample⟩]
    { log with fragments, delivered := log.delivered ++ (reassemble fragments).toList }
  else { log with delivered := log.delivered ++ [sample] }

def dispatch (r : Receiving) : Receiving :=
  { r with
    log := r.log.accept reassemble r.transportHeader r.payload
    payload := []
    transportHeader := { r.transportHeader with lastFragment := false } }

/-- The part of the inner loop behind the sample header. -/
def manageSample (r : Receiving) : Step :=
  let (lastBuffer, r) := updateBufferIndex r
  let r := if r.receiveSampleRemaining > 0 then takePayload r else r
  let r := if r.receiveSampleRemaining = 0 then dispatch reassemble r else r
  match updateBufferIndex r with
  | (true, r) => .returns r
  | (false, r) => if lastBuffer then .returns r else .continues r

/-- The two loops; `inside` says that the inner one is tested next. -/
def process : Nat → Bool → Receiving → Except Failure Receiving
  | 0, _, _ => .error .endless
  | fuel + 1, inside, r =>
    if inside ∧ r.pduRemaining > 0 then
      match manageSampleHeader host r with
      | .error failure => .error failure
      | .ok (.returns r) => .ok r
      | .ok (.continues r) =>
        match manageSample reassemble r with
        | .returns r => .ok r
        | .continues r => process fuel true r
    else
      match manageTransportHeader host r with
      | .error failure => .error failure
      | .ok (.returns r) => .ok r
      | .ok (.continues r) => process fuel true r

/-- The ring with which a call starts. -/
def prepareBuffers (buffers : List (Option (Buffer UInt8))) : List (Buffer UInt8) :=
  allocate receiveDataBufferSize (discard bufferLowWater buffers)

/-- `handle_dds_input` when `receive_bytes` reads `bytes`. -/
def handleDdsInput (s : Strategy) (bytes : List UInt8) : Except Failure Strategy :=
  let ring := prepareBuffers s.buffers
  if bytes = [] then .error .disconnected
  else if spaces ring < bytes.length then .error .corrupted
  else
    let transportHeader :=
      if s.pduRemaining = 0 then
        { s.transportHeader with length := BitVec.ofNat 32 bytes.length }
      else s.transportHeader
    let ring := fill bytes ring
    match process host reassemble ((unread ring).length + 2) false
        { s with transportHeader, ring } with
    | .error failure => .error failure
    | .ok r => .ok { r with buffers := r.ring.map some }

def create : Strategy where
  transportHeader := TransportHeader.create host
  log := ⟨DataSampleHeader.create host, [], []⟩
  payload := []
  receiveSampleRemaining := 0
  pduRemaining := 0
  goodPdu := true
  buffers := List.replicate receiveBuffers none

end

end OpenDDS.Source.ReceiveStrategy

/-!
# Receiving packets with any header classes

The loops of `TransportReceiveStrategy`
(dds/DCPS/transport/framework/TransportReceiveStrategy_T.cpp) over any number of calls, for
transport and sample headers that are read as a whole from the bytes and have a length: the
`incomplete()` and `reset()` of the RTPS headers are left out, and so is what is made of a sample.
`ReceiveStrategy` is what the loops are with the default headers.
-/
namespace OpenDDS.Source.ReceiveTemplate
open Library Library.Chain Library.BufferRing
open ReceiveStrategy (Failure sizeSub blocks prepareBuffers)

/-- What the template uses of its parameters, and the checks that a subclass may replace. -/
structure Headers where
  TH : Type
  DSH : Type
  maxMarshaledSize : Nat
  /-- The assignment from a message block, and the number of bytes that it reads. -/
  readTransport : TH → List (Block UInt8) → Except Serializer.Fault (TH × Nat)
  valid : TH → Bool
  length : TH → BitVec 32
  withLength : BitVec 32 → TH → TH
  /-- `last_fragment(false)`. -/
  notLast : TH → TH
  checkHeader : TH → Bool
  isPartial : List (Block UInt8) → Bool
  /-- `pdu_remaining` and the assignment from a message block. -/
  readSample : Nat → DSH → List (Block UInt8) → Except Serializer.Fault (DSH × Nat)
  marshaledSize : DSH → Nat
  messageLength : DSH → BitVec 32
  checkSampleHeader : DSH → Bool

structure Parser (H : Headers) where
  transportHeader : H.TH
  sampleHeader : H.DSH
  payload : List UInt8
  receiveSampleRemaining : Nat
  pduRemaining : Nat
  goodPdu : Bool

structure Strategy (H : Headers) extends Parser H where
  buffers : List (Option (Buffer UInt8))

structure Receiving (H : Headers) extends Parser H where
  ring : List (Buffer UInt8)

variable {H : Headers}

inductive Step (H : Headers) where
  | returns (r : Receiving H)
  | continues (r : Receiving H)

def updateBufferIndex (r : Receiving H) : Bool × Receiving H :=
  match seek [] r.ring with
  | none => (true, r)
  | some ring => (false, { r with ring })

def skipBadPdus (r : Receiving H) : Except Failure (Step H) :=
  if r.goodPdu then .ok (.continues r)
  else if (unread r.ring).length < r.pduRemaining then .error .corrupted
  else
    let r := { r with
      ring := advance r.pduRemaining r.ring, pduRemaining := 0, receiveSampleRemaining := 0 }
    match updateBufferIndex r with
    | (true, r) => .ok (.returns r)
    | (false, r) => .ok (.continues r)

/-- The part of the outer loop in front of the samples of a packet. -/
def manageTransportHeader (r : Receiving H) : Except Failure (Step H) :=
  if r.pduRemaining = 0 then
    match blocks r.ring with
    | none => .error .endless
    | some mb =>
      if (contents mb).length < H.maxMarshaledSize then .ok (.returns r)
      else
        match H.readTransport r.transportHeader mb with
        | .error fault => .error (.fault fault)
        | .ok (header, size) =>
          if H.valid header then
            skipBadPdus { r with
              ring := advance size r.ring
              transportHeader := header
              goodPdu := H.checkHeader header
              pduRemaining := (H.length header).toNat }
          else .error .invalidHeader
  else skipBadPdus r

/-- What is left when a sample header of `size` bytes is read. -/
def afterSampleHeader (r : Receiving H) (header : H.DSH) (size : Nat) : Receiving H :=
  { r with
    ring := advance size r.ring
    sampleHeader := header
    goodPdu := H.checkSampleHeader header
    receiveSampleRemaining := (H.messageLength header).toNat
    pduRemaining := sizeSub r.pduRemaining (H.marshaledSize header) }

/-- The part of the inner loop in front of the payload. -/
def manageSampleHeader (r : Receiving H) : Except Failure (Step H) :=
  if r.receiveSampleRemaining = 0 then
    match blocks r.ring with
    | none => .error .endless
    | some mb =>
      if H.isPartial mb then .ok (.returns r)
      else
        match H.readSample r.pduRemaining r.sampleHeader mb with
        | .error fault => .error (.fault fault)
        | .ok (header, size) => skipBadPdus (afterSampleHeader r header size)
  else .ok (.continues r)

def amount (r : Receiving H) : Nat :=
  match r.ring with
  | [] => 0
  | b :: _ => min r.receiveSampleRemaining b.items.length

def takePayload (r : Receiving H) : Receiving H :=
  { r with
    payload := r.payload ++ ((r.ring.head?.map Buffer.items).getD []).take (amount r)
    ring := advance (amount r) r.ring
    receiveSampleRemaining := r.receiveSampleRemaining - amount r
    pduRemaining := sizeSub r.pduRemaining (amount r) }

def dispatch (r : Receiving H) : Receiving H :=
  { r with payload := [], transportHeader := H.notLast r.transportHeader }

def managePayload (r : Receiving H) : Receiving H :=
  if r.receiveSampleRemaining > 0 then takePayload r else r

/-- The part of the inner loop behind the sample header. -/
def manageSample (r : Receiving H) : Step H :=
  let (lastBuffer, r) := updateBufferIndex r
  let r := managePayload r
  let r := if r.receiveSampleRemaining = 0 then dispatch r else r
  match updateBufferIndex r with
  | (true, r) => .returns r
  | (false, r) => if lastBuffer then .returns r else .continues r

/-- The strategy, or where it stands in a call; `inside` says that the inner loop is tested
next. -/
inductive Moment (H : Headers) where
  | waits (s : Strategy H)
  | loops (inside : Bool) (r : Receiving H)
  | fails (failure : Failure)

def Step.moment : Step H → Moment H
  | .returns r => .waits { r with buffers := r.ring.map some }
  | .continues r => .loops true r

def sampleRound (r : Receiving H) : Moment H :=
  match manageSampleHeader r with
  | .error failure => .fails failure
  | .ok (.returns r) => (Step.returns r).moment
  | .ok (.continues r) => (manageSample r).moment

/-- The two loops, up to where they are tested again. -/
def loop (inside : Bool) (r : Receiving H) : Moment H :=
  if inside ∧ r.pduRemaining > 0 then sampleRound r
  else
    match manageTransportHeader r with
    | .error failure => .fails failure
    | .ok step => step.moment

/-- The start of a call, when `receive_bytes` reads `bytes`. -/
def receive (s : Strategy H) (bytes : List UInt8) : Moment H :=
  let ring := prepareBuffers s.buffers
  if bytes = [] then .fails .disconnected
  else if spaces ring < bytes.length then .fails .corrupted
  else
    let transportHeader :=
      if s.pduRemaining = 0 then H.withLength (BitVec.ofNat 32 bytes.length) s.transportHeader
      else s.transportHeader
    .loops false { s with transportHeader, ring := fill bytes ring }

/-- A call begins with some bytes, and goes on without any. -/
def trans : Moment H → Option (List UInt8) → Moment H → Prop
  | .waits s, some bytes, after => after = receive s bytes
  | .loops inside r, none, after => after = loop inside r
  | _, _, _ => False

def create (transportHeader : H.TH) (sampleHeader : H.DSH) : Strategy H where
  transportHeader
  sampleHeader
  payload := []
  receiveSampleRemaining := 0
  pduRemaining := 0
  goodPdu := true
  buffers := List.replicate ReceiveStrategy.receiveBuffers none

/-- `TransportHeader` and `DataSampleHeader`. -/
def defaultHeaders (host : ByteOrder) : Headers where
  TH := TransportHeader.Header
  DSH := DataSampleHeader.Header
  maxMarshaledSize := TransportHeader.maxMarshaledSize
  readTransport header mb :=
    match TransportHeader.init host header mb with
    | .error fault => .error fault
    | .ok (header, reader) => .ok (header, (contents mb).length - (contents reader.current).length)
  valid := TransportHeader.Header.valid
  length header := header.length
  withLength length header := { header with length }
  notLast header := { header with lastFragment := false }
  checkHeader := ReceiveStrategy.checkHeader
  isPartial := DataSampleHeader.isPartial host
  readSample _ header mb :=
    match DataSampleHeader.init host header mb with
    | .error fault => .error fault
    | .ok d => .ok (d.header, (contents mb).length - (contents d.reader.current).length)
  marshaledSize header := header.marshaledSize
  messageLength header := header.messageLength
  checkSampleHeader := ReceiveStrategy.checkSampleHeader

end OpenDDS.Source.ReceiveTemplate
