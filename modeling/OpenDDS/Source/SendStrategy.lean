import OpenDDS.Source.SequenceNumber
import OpenDDS.Source.TransportHeader

/-!
# Sending transport packets

`TransportSendStrategy` (dds/DCPS/transport/framework/TransportSendStrategy.{inl,cpp}) with
the base class's headers and without a send buffer: elements are collected in a packet and
sent directly, or queued while the connection does not take them.

What the strategy is told from outside while a call runs, by `send_bytes` and `relink`, is
given to the call in advance as the attempts it makes. The notifications are delayed in all
calls, as far as there is room for them. Two fields are not the code's: the bytes that
`send_bytes` accepted, and what became of the packets that were prepared.
-/
namespace OpenDDS.Source.SendStrategy
open Library

structure MessageBlock where
  base : Nat
  bytes : List UInt8
  deriving DecidableEq

/-- What the strategy uses of a `TransportQueueElement`, whose message has at least one block. -/
class QueueElement (ε : Type) where
  msg : ε → List MessageBlock
  publicationId : ε → Nat
  requiresExclusivePacket : ε → Bool
  ownedByTransport : ε → Bool
  isFragment : ε → Bool
  fragment : ε → Nat → ε × ε

open QueueElement

inductive SendMode where
  | notSet
  | direct
  | queue
  | suspend
  | terminated
  deriving DecidableEq

inductive Fate where
  | delivered
  | dropped
  deriving DecidableEq

/-- The configuration; `maxSendBlocks` is `MAX_SEND_BLOCKS`. -/
structure Config where
  host : ByteOrder
  maxSamples : Nat
  optimumSize : Nat
  maxSize : Nat
  maxMessageSize : Nat
  maxSendBlocks : Nat

/-- A packet that was prepared: how many of its bytes `send_bytes` accepted, how many it was
handed, and whether its elements were those of a packet that was sent in part. -/
structure Packet (ε : Type) where
  header : List UInt8
  elements : List ε
  accepted : Nat
  handed : Nat
  rebuilt : Bool

structure Strategy (ε : Type) where
  mode : SendMode
  modeBeforeSuspend : SendMode
  queue : List ε
  elems : List ε
  header : TransportHeader.Header
  headerSequence : Int
  pktChain : List MessageBlock
  headerComplete : Bool
  startCounter : Nat
  delayed : List (ε × SendMode)
  notified : List (ε × Fate)
  gracefulDisconnecting : Bool
  linkReleased : Bool
  transportShutdown : Bool
  accepted : List UInt8
  packets : List (Packet ε)
  current : Option (Packet ε)

/-- What `send_bytes` says. -/
inductive Answer where
  | sent (numBytes : Nat)
  | backpressure
  | sendError
  | peerLost
  deriving DecidableEq

inductive Relink where
  | unchanged
  | suspended
  | resumed
  | terminated
  deriving DecidableEq

structure Attempt where
  answer : Answer
  relink : Relink
  deriving DecidableEq

inductive Outcome where
  | completeSend
  | partialSend
  | backpressure
  | peerLost
  | sendError
  deriving DecidableEq

inductive WorkOutcome where
  | brokenResource
  | noMoreToDo
  | cloggedResource
  | moreToDo
  deriving DecidableEq

/-- Why a call does not end: a null packet or element is used, or the attempts are not
those of the call. -/
inductive Fault where
  | nullPacket
  | nullElement
  | unanswered
  deriving DecidableEq

def chainBytes (chain : List MessageBlock) : List UInt8 := chain.flatMap MessageBlock.bytes

def totalLength (chain : List MessageBlock) : Nat := (chainBytes chain).length

def toInt (n : Nat) : Int := (BitVec.ofNat 32 n).toInt

/-- Subtraction of numbers of type `size_t`. -/
def sizeSub (a b : Nat) : Nat := if b ≤ a then a - b else a + 2 ^ 64 - b

variable {ε : Type} [QueueElement ε]

def elementLength (e : ε) : Nat := totalLength (msg e)

/-- The base of the last block of an element. -/
def tailBase (e : ε) : Nat := ((msg e).getLast?.map MessageBlock.base).getD 0

section

def Strategy.addDelayedNotification (e : ε) (s : Strategy ε) : Strategy ε :=
  { s with delayed := s.delayed ++ [(e, s.mode)] }

def Strategy.dataDropped (e : ε) (s : Strategy ε) : Strategy ε :=
  { s with notified := s.notified ++ [(e, .dropped)] }

def Strategy.dataDelivered (e : ε) (s : Strategy ε) : Strategy ε :=
  { s with notified := s.notified ++ [(e, .delivered)] }

/-- The notification that goes with a mode. -/
def Strategy.notify (mode : SendMode) (e : ε) (s : Strategy ε) : Strategy ε :=
  if mode = .terminated then s.dataDropped e else s.dataDelivered e

def Strategy.sendDelayedNotifications (select : ε → Bool) (s : Strategy ε) : Strategy ε :=
  (s.delayed.filter fun d => select d.1).foldl
    (fun s d => if !s.transportShutdown || ownedByTransport d.1 then s.notify d.2 d.1 else s)
    { s with delayed := s.delayed.filter fun d => !select d.1 }

end

section

variable (cfg : Config)

def Strategy.spaceAvailable (s : Strategy ε) : Nat :=
  let used := TransportHeader.maxMarshaledSize + s.header.length.toNat
  if cfg.maxMessageSize ≠ 0 then min (sizeSub cfg.maxSize used) (sizeSub cfg.maxMessageSize used)
  else sizeSub cfg.maxSize used

/-- An element goes into the packet that is collected. -/
def Strategy.putElement (e : ε) (s : Strategy ε) : Strategy ε :=
  { s with
    elems := s.elems ++ [e]
    header := { s.header with length := s.header.length + BitVec.ofNat 32 (elementLength e) } }

/-- `marshal_transport_header` into a block of `max_header_size_`. -/
def marshalTransportHeader (host : ByteOrder) (h : TransportHeader.Header) : List UInt8 :=
  match TransportHeader.marshal host ⟨0, List.replicate TransportHeader.maxMarshaledSize 0⟩ h with
  | .ok writer => writer.written
  | .error _ => []

/-- Whether some but not all bytes of the packet in `pkt_chain_` were accepted. -/
def Strategy.partlySent (s : Strategy ε) : Bool :=
  !s.pktChain.isEmpty && s.current.any fun p => decide (0 < p.accepted)

def Strategy.preparePacket (s : Strategy ε) : Strategy ε :=
  let next := SequenceNumber.next s.headerSequence
  let header := { s.header with
    sequenceHigh := BitVec.ofInt 32 (next / SequenceNumber.lowBase)
    sequenceLow := BitVec.ofInt 32 next }
  let bytes := marshalTransportHeader cfg.host header
  { s with
    headerSequence := next
    header
    pktChain := ⟨0, bytes⟩ :: s.elems.flatMap msg
    headerComplete := false
    packets := s.packets ++ s.current.toList
    current := some ⟨bytes, s.elems, 0, 0, s.partlySent⟩ }

/-- The loop of `adjust_packet_after_send` under way; `elems` and `delayed` are those of the
strategy, `tail` is the base of the last block of the first element. -/
structure Peeling (ε : Type) where
  elems : List ε
  headerComplete : Bool
  bytesLeft : Int
  nonHeaderBytes : Int
  tail : Nat
  delayed : List (ε × SendMode)
  elemsToNotify : List ε

/-- The first element was sent. -/
def Peeling.extract (mode : SendMode) (p : Peeling ε) : Except Fault (Peeling ε) :=
  match p.elems with
  | [] => .error .nullElement
  | e :: rest =>
    let p := { p with elems := rest, tail := (rest.head?.map tailBase).getD p.tail }
    if p.delayed.length < cfg.maxSamples then .ok { p with delayed := p.delayed ++ [(e, mode)] }
    else .ok { p with elemsToNotify := p.elemsToNotify ++ [e] }

/-- `while (num_bytes_left > 0)`: what is left of the chain. -/
def peel (mode : SendMode) : List MessageBlock → Peeling ε →
    Except Fault (List MessageBlock × Peeling ε)
  | [], p => if p.bytesLeft ≤ 0 then .ok ([], p) else .error .nullPacket
  | b :: rest, p =>
    if p.bytesLeft ≤ 0 then .ok (b :: rest, p)
    else
      let blockLength := toInt b.bytes.length
      if blockLength ≤ p.bytesLeft then
        let p := { p with bytesLeft := p.bytesLeft - blockLength }
        if !p.headerComplete then peel mode rest { p with headerComplete := true }
        else
          let p := { p with nonHeaderBytes := p.nonHeaderBytes + blockLength }
          if b.base = p.tail then
            match p.extract cfg mode with
            | .error fault => .error fault
            | .ok p => peel mode rest p
          else peel mode rest p
      else
        .ok ({ b with bytes := b.bytes.drop p.bytesLeft.toNat } :: rest, { p with
          nonHeaderBytes := if p.headerComplete then p.nonHeaderBytes + p.bytesLeft
            else p.nonHeaderBytes
          bytesLeft := 0 })

/-- `adjust_packet_after_send`: whether bytes of the packet are left. -/
def Strategy.adjustPacketAfterSend (numBytesSent : Int) (s : Strategy ε) :
    Except Fault (Bool × Strategy ε) :=
  match s.elems with
  | [] => .ok (decide (s.header.length ≠ 0), s)
  | e :: _ =>
    match peel cfg s.mode s.pktChain
        ⟨s.elems, s.headerComplete, numBytesSent, 0, tailBase e, s.delayed, []⟩ with
    | .error fault => .error fault
    | .ok (chain, p) =>
      let length := s.header.length - BitVec.ofInt 32 p.nonHeaderBytes
      let s := { s with
        pktChain := chain
        elems := p.elems
        headerComplete := p.headerComplete
        delayed := p.delayed
        header := { s.header with length } }
      .ok (decide (length ≠ 0), p.elemsToNotify.foldl (fun s e => s.notify s.mode e) s)

/-- `mb_to_iov`: the blocks that `send_bytes` is handed. -/
def offered (chain : List MessageBlock) : List MessageBlock := chain.take cfg.maxSendBlocks

def Strategy.sendPacket (answer : Answer) (s : Strategy ε) : Except Fault (Outcome × Strategy ε) :=
  if s.pktChain = [] then .error .nullPacket
  else
    let bytes := chainBytes (offered cfg s.pktChain)
    let s := { s with current := s.current.map fun p =>
      { p with handed := max p.handed (p.accepted + bytes.length) } }
    match answer with
    | .peerLost => .ok (.peerLost, s)
    | .backpressure => .ok (.backpressure, s)
    | .sendError => .ok (.sendError, s)
    | .sent numBytes =>
      if numBytes = 0 ∨ bytes.length < numBytes then .error .unanswered
      else
        let s := { s with
          accepted := s.accepted ++ bytes.take numBytes
          current := s.current.map fun (p : Packet ε) => { p with accepted := p.accepted + numBytes } }
        match s.adjustPacketAfterSend cfg numBytes with
        | .error fault => .error fault
        | .ok (true, s) => .ok (.partialSend, s)
        | .ok (false, s) => .ok (.completeSend, s)

end

section

variable (cfg : Config)

def Strategy.suspendSend (s : Strategy ε) : Strategy ε :=
  if s.mode ≠ .terminated ∧ s.mode ≠ .suspend then
    { s with modeBeforeSuspend := s.mode, mode := .suspend }
  else s

def Strategy.resumeSend (s : Strategy ε) : Strategy ε :=
  if s.mode = .terminated then
    { s with
      header := { s.header with length := 0 }
      pktChain := []
      headerComplete := false
      startCounter := 0
      mode := .direct
      modeBeforeSuspend := .notSet
      delayed := []
      packets := s.packets ++ s.current.toList
      current := none }
  else if s.mode = .suspend then
    { s with mode := s.modeBeforeSuspend, modeBeforeSuspend := .notSet }
  else s

/-- The part of `clear` that holds the lock, if a packet was prepared in part. -/
def Strategy.clearPacket (s : Strategy ε) : Except Fault (Strategy ε) :=
  if s.header.length ≠ 0 then
    if s.pktChain = [] then .error .nullPacket
    else (s.adjustPacketAfterSend cfg (toInt (totalLength s.pktChain))).map Prod.snd
  else .ok s

def Strategy.clear (mode : SendMode) (s : Strategy ε) : Except Fault (Strategy ε) :=
  match (s.sendDelayedNotifications fun _ => true).clearPacket cfg with
  | .error fault => .error fault
  | .ok s =>
    .ok ((s.elems ++ s.queue).foldl (fun s e => s.dataDropped e) { s with
      elems := []
      queue := []
      header := { s.header with length := 0 }
      pktChain := []
      headerComplete := false
      startCounter := 0
      mode
      modeBeforeSuspend := .notSet
      packets := s.packets ++ s.current.toList
      current := none })

def Strategy.terminateSend (gracefulDisconnecting : Bool) (s : Strategy ε) :
    Except Fault (Strategy ε) :=
  let resetFlag :=
    !((s.mode = .terminated || s.mode = .suspend) && !s.gracefulDisconnecting)
  (s.clear cfg .terminated).map fun s => if resetFlag then { s with gracefulDisconnecting } else s

/-- `relink`, which suspends the strategy first if it is told to. -/
def Strategy.relink (doSuspend : Bool) (effect : Relink) (s : Strategy ε) :
    Except Fault (Strategy ε) :=
  let suspended := if doSuspend then s.suspendSend else s
  match effect with
  | .unchanged => .ok s
  | .suspended => .ok suspended
  | .resumed => .ok suspended.resumeSend
  | .terminated => suspended.terminateSend cfg false

end

section

variable (cfg : Config)

/-- The loop of `direct_send`, and the attempts that were not made. -/
def directSendLoop (relink : Bool) : List Attempt → Strategy ε →
    Except Fault (List Attempt × Strategy ε)
  | [], _ => .error .unanswered
  | attempt :: attempts, s =>
    match s.sendPacket cfg attempt.answer with
    | .error fault => .error fault
    | .ok (.completeSend, s) => .ok (attempts, s)
    | .ok (.backpressure, s) | .ok (.partialSend, s) => .ok (attempts, { s with mode := .queue })
    | .ok (.peerLost, s) | .ok (.sendError, s) =>
      let s :=
        if s.mode ≠ .suspend then { s with modeBeforeSuspend := s.mode, mode := .suspend } else s
      if relink then
        match s.relink cfg false attempt.relink with
        | .error fault => .error fault
        | .ok s =>
          if s.mode = .suspend ∨ s.mode = .terminated then .ok (attempts, s)
          else directSendLoop relink attempts s
      else .ok (attempts, s)

def directSend (relink : Bool) (attempts : List Attempt) (s : Strategy ε) :
    Except Fault (List Attempt × Strategy ε) :=
  directSendLoop cfg relink attempts (s.preparePacket cfg)

/-- Whether a packet that has its last element is sent now. -/
def looksFull (exclusive : Bool) (next : Option ε) (s : Strategy ε) : Bool :=
  next.isSome || cfg.maxSamples ≤ s.elems.length ||
    cfg.optimumSize < TransportHeader.maxMarshaledSize + s.header.length.toNat || exclusive

/-- The piece of an element that goes into this packet, and the fragment for the next one. -/
def nextPiece (firstPkt : Bool) (next : Option ε) (e : ε) (s : Strategy ε) :
    ε × Option ε × Strategy ε :=
  let e := next.getD e
  let s := if next.isSome then { s with header := { s.header with firstFragment := false } } else s
  let s := { s with header := { s.header with lastFragment := false } }
  if cfg.maxMessageSize = 0 then (e, next, s)
  else
    let avail := s.spaceAvailable cfg
    if elementLength e > avail then
      ((fragment e avail).1, some (fragment e avail).2,
        { s with header := { s.header with firstFragment := firstPkt } })
    else if next.isSome then (e, none, { s with header := { s.header with lastFragment := true } })
    else (e, next, s)

/-- The loop of `send` that appends the element, in fragments if needed. Each further packet
takes an attempt, so that `fuel` does not run out before the attempts. -/
def appendLoop (relink exclusive : Bool) : Nat → Bool → Option ε → ε → List Attempt →
    Strategy ε → Except Fault (Strategy ε)
  | 0, _, _, _, _, _ => .error .unanswered
  | fuel + 1, firstPkt, next, e, attempts, s =>
    if (firstPkt ∨ next.isSome) ∧ (s.mode = .direct ∨ s.mode = .terminated) then
      let (piece, next, s) := nextPiece cfg firstPkt next e s
      let s := s.putElement piece
      if looksFull cfg exclusive next s then
        match directSend cfg relink attempts s with
        | .error fault => .error fault
        | .ok (attempts, s) =>
          let s :=
            match next with
            | none => s
            | some rest =>
              if s.mode = .direct then s
              else if s.mode = .queue then { s with queue := s.queue ++ [rest] }
              else s.dataDropped rest
          appendLoop relink exclusive fuel false next piece attempts s
      else appendLoop relink exclusive fuel false next piece attempts s
    else .ok s

def minFrag : Nat := 68

/-- Whether the current packet is sent before the element is appended. -/
def sendsFirst (e : ε) (s : Strategy ε) : Bool :=
  let spaceNeeded :=
    if cfg.maxMessageSize > 0 then DataSampleHeader.maxMarshaledSize + minFrag else elementLength e
  (requiresExclusivePacket e && !s.elems.isEmpty) || s.spaceAvailable cfg < spaceNeeded

def matchesPub (id : Nat) (e : ε) : Bool := publicationId e = id

def Strategy.send (relink : Bool) (e : ε) (attempts : List Attempt) (s : Strategy ε) :
    Except Fault (Strategy ε) :=
  let append (attempts : List Attempt) (s : Strategy ε) :=
    (appendLoop cfg relink (requiresExclusivePacket e) (attempts.length + 2) true none e attempts
      s).map (Strategy.sendDelayedNotifications (matchesPub (publicationId e)))
  if s.linkReleased then
    let s :=
      if s.delayed.length < cfg.maxSamples then s.addDelayedNotification e else s.notify s.mode e
    .ok (s.sendDelayedNotifications (matchesPub (publicationId e)))
  else if s.mode = .terminated ∧ !s.gracefulDisconnecting then .ok (s.dataDropped e)
  else if cfg.maxMessageSize = 0 ∧
      cfg.maxSize < TransportHeader.maxMarshaledSize + elementLength e then .ok s
  else if s.mode = .queue ∨ s.mode = .suspend then .ok { s with queue := s.queue ++ [e] }
  else if sendsFirst cfg e s then
    match directSend cfg relink attempts s with
    | .error fault => .error fault
    | .ok (attempts, s) =>
      if s.mode = .queue then .ok { s with queue := s.queue ++ [e] } else append attempts s
  else append attempts s

def Strategy.sendStart (s : Strategy ε) : Strategy ε :=
  if s.linkReleased then s else { s with startCounter := s.startCounter + 1 }

/-- `send_stop`; no id is `GUID_UNKNOWN`. -/
def Strategy.sendStop (repoId : Option Nat) (attempts : List Attempt) (s : Strategy ε) :
    Except Fault (Strategy ε) :=
  if s.linkReleased ∨ s.startCounter = 0 then .ok s
  else
    let s := { s with startCounter := s.startCounter - 1 }
    if s.startCounter ≠ 0 then .ok s
    else if s.mode = .terminated ∧ !s.gracefulDisconnecting then .ok s
    else if s.mode = .queue ∨ s.mode = .suspend then .ok s
    else
      let sent :=
        if s.header.length ≠ 0 ∧ s.elems ≠ [] then (directSend cfg true attempts s).map Prod.snd
        else .ok s
      sent.map (Strategy.sendDelayedNotifications fun e =>
        match repoId with
        | none => true
        | some id => matchesPub id e)

/-- The loop of `get_packet_elems_from_queue`, which takes elements while they fit. -/
def getPacketElems : List ε → Strategy ε → Strategy ε
  | [], s => { s with queue := [] }
  | e :: rest, s =>
    let exclusive := requiresExclusivePacket e
    let avail := s.spaceAvailable cfg
    let frag := decide (elementLength e > avail)
    if frag ∧ cfg.maxMessageSize = 0 then { s with queue := e :: rest }
    else
      let s :=
        if frag then { s with header := { s.header with firstFragment := !isFragment e } } else s
      let piece := if frag then (fragment e avail).1 else e
      let queue := if frag then (fragment e avail).2 :: rest else e :: rest
      let takes := (exclusive && s.elems.isEmpty) || !exclusive
      let s := { s with queue := if takes && !frag then rest else queue }
      let s :=
        if takes then
          let s :=
            if s.header.length = 0 then
              { s with header := { s.header with lastFragment := !frag && isFragment piece } }
            else s
          s.putElement piece
        else s
      if exclusive || frag || s.elems.length = cfg.maxSamples ||
          cfg.optimumSize ≤ s.header.length.toNat then s
      else getPacketElems rest s

def Strategy.performWork (attempt : Attempt) (s : Strategy ε) :
    Except Fault (WorkOutcome × Strategy ε) :=
  if s.mode = .terminated then .ok (.brokenResource, s)
  else if s.mode ≠ .queue ∧ s.mode ≠ .suspend then .ok (.noMoreToDo, s)
  else if s.header.length = 0 ∧ s.queue = [] then .ok (.noMoreToDo, { s with mode := .direct })
  else
    let s :=
      if s.header.length = 0 then (getPacketElems cfg s.queue s).preparePacket cfg else s
    match s.sendPacket cfg attempt.answer with
    | .error fault => .error fault
    | .ok (outcome, s) =>
      let noMoreWork := outcome = .completeSend && s.queue.isEmpty
      let s := if noMoreWork then { s with mode := .direct } else s
      let s := s.sendDelayedNotifications fun _ => true
      if noMoreWork then .ok (.noMoreToDo, s)
      else if outcome = .peerLost ∨ outcome = .sendError then
        match s.relink cfg true attempt.relink with
        | .error fault => .error fault
        | .ok s =>
          if s.mode = .suspend then .ok (.noMoreToDo, s)
          else if s.mode = .terminated then .ok (.brokenResource, s)
          else .ok (.moreToDo, s)
      else if outcome = .backpressure then .ok (.cloggedResource, s)
      else .ok (.moreToDo, s)

end

structure WholeElement where
  publicationId : Nat
  blocks : List MessageBlock
  exclusive : Bool
  deriving DecidableEq

instance : QueueElement WholeElement where
  msg e := e.blocks
  publicationId e := e.publicationId
  requiresExclusivePacket e := e.exclusive
  ownedByTransport _ := false
  isFragment _ := false
  fragment e _ := (e, e)

def create (host : ByteOrder) : Strategy ε where
  mode := .direct
  modeBeforeSuspend := .notSet
  queue := []
  elems := []
  header := TransportHeader.create host
  headerSequence := 1
  pktChain := []
  headerComplete := false
  startCounter := 0
  delayed := []
  notified := []
  gracefulDisconnecting := false
  linkReleased := false
  transportShutdown := false
  accepted := []
  packets := []
  current := none

inductive Call (ε : Type) where
  | sendStart
  | send (relink : Bool) (e : ε) (attempts : List Attempt)
  | sendStop (repoId : Option Nat) (attempts : List Attempt)
  | performWork (attempt : Attempt)
  | suspendSend
  | resumeSend
  | terminateSend (gracefulDisconnecting : Bool)

def Strategy.perform (cfg : Config) (s : Strategy ε) : Call ε → Except Fault (Strategy ε)
  | .sendStart => .ok s.sendStart
  | .send relink e attempts => s.send cfg relink e attempts
  | .sendStop repoId attempts => s.sendStop cfg repoId attempts
  | .performWork attempt => (s.performWork cfg attempt).map Prod.snd
  | .suspendSend => .ok s.suspendSend
  | .resumeSend => .ok s.resumeSend
  | .terminateSend gracefulDisconnecting => s.terminateSend cfg gracefulDisconnecting

end OpenDDS.Source.SendStrategy
