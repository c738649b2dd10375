import OpenDDS.Library.Run
import OpenDDS.Source.DisjointSequence

/-!
The subscriber's side of a multicast `ReliableSession`
(dds/DCPS/transport/multicast/ReliableSession.cpp and MulticastSession.cpp): headers
passed to `check_header`, the control samples a passive session receives, and the
ticks of the NAK watchdog. Times are read from the clock by the code and are
arguments of the tick here. The reassembly of fragments is left out: it is told which
ranges were dropped and has no influence on the sequence set.
-/
namespace OpenDDS.Source.ReliableSession
open Library.RangeList SequenceNumber DisjointSequence

/-- The values of `MulticastInst` the session reads. -/
structure Config where
  localPeer : Nat
  nakTimeout : Int
  nakDelayIntervals : Nat
  nakMax : Nat

structure TransportHeader where
  source : Nat
  sequence : Int

/-- A passive session. `nak_requests_` is a map from times in ascending order. -/
structure Session where
  remotePeer : Nat
  acked : Bool
  nakSequence : List Range
  nakRequests : List (Int × Int)
  nakPeers : List Range
  deriving DecidableEq, Repr

inductive Control where
  | syn (peer : Nat)
  | synack (peer : Nat)
  | nak (peer : Nat) (ranges : List Range)
  | nakack (low : Int)

/-- `check_header`, with its result. -/
def checkHeader (s : Session) (header : TransportHeader) : Except Fault (Bool × Session) :=
  if s.remotePeer ≠ header.source then .ok (true, s)
  else
    match DisjointSequence.insert s.nakSequence header.sequence with
    | .error fault => .error fault
    | .ok (fresh, seqs) => .ok (fresh, { s with nakSequence := seqs })

/-- `syn_hook`: a new baseline from the first sequence number to `seq`. -/
def synHook (s : Session) (seq : Int) : Except Fault Session :=
  match insertI [] (ofValue minValue, seq) with
  | .error fault => .error fault
  | .ok (_, seqs) => .ok { s with nakSequence := seqs }

def synReceived (config : Config) (s : Session) (header : TransportHeader) (peer : Nat) :
    Except Fault Session :=
  if s.remotePeer ≠ header.source then .ok s
  else if peer ≠ config.localPeer then .ok s
  else if s.acked then .ok s
  else synHook { s with acked := true } header.sequence

/-- `insert(SequenceRange(low(), last), dropped)` on `nak_sequence_`; `low()` needs a
member. -/
def dropUpTo (s : Session) (last : Int) : Except Fault (List Range × Session) :=
  if empty s.nakSequence then .error .emptySequence
  else
    match insertGaps s.nakSequence (low s.nakSequence, last) with
    | .error fault => .error fault
    | .ok (_, seqs, dropped) => .ok (dropped, { s with nakSequence := seqs })

/-- `nakack_received`: everything below the remote peer's low-water mark is given up. -/
def nakackReceived (s : Session) (header : TransportHeader) (low : Int) : Except Fault Session :=
  if s.remotePeer ≠ header.source then .ok s
  else
    match dropUpTo s (previous low) with
    | .error fault => .error fault
    | .ok (_, s) => .ok s

/-- `control_received`. Before the session is acked the header of the sample is recorded
too; a passive session ignores SYNACK and NAK. -/
def controlReceived (config : Config) (s : Session) (header : TransportHeader)
    (control : Control) : Except Fault Session :=
  match (if !s.acked && decide (s.remotePeer = header.source) then checkHeader s header
    else .ok (true, s)) with
  | .error fault => .error fault
  | .ok (_, s) =>
    match control with
    | .syn peer => synReceived config s header peer
    | .synack _ => .ok s
    | .nak _ _ => .ok s
    | .nakack low => nakackReceived s header low

/-- The mark up to which expired requests are given up: the first one that stays, or the
last of all. -/
def lastExpired (nakRequests kept : List (Int × Int)) : Int :=
  match kept with
  | [] => (nakRequests.getLast?.map Prod.snd).getD 0
  | r :: _ => r.2

def expireNaks (config : Config) (s : Session) (now : Int) : Except Fault Session :=
  let deadline := now - config.nakTimeout
  let expired := s.nakRequests.takeWhile fun r => r.1 ≤ deadline
  let kept := s.nakRequests.dropWhile fun r => r.1 ≤ deadline
  if expired = [] then .ok s
  else
    match dropUpTo s (lastExpired s.nakRequests kept) with
    | .error fault => .error fault
    | .ok (_, s) => .ok { s with nakRequests := kept }

/-- `expire_naks` with the ranges it hands to `data_unavailable`. -/
def expireDropping (config : Config) (s : Session) (now : Int) :
    Except Fault (List Range × Session) :=
  let deadline := now - config.nakTimeout
  let expired := s.nakRequests.takeWhile fun r => r.1 ≤ deadline
  let kept := s.nakRequests.dropWhile fun r => r.1 ≤ deadline
  if expired = [] then .ok ([], s)
  else
    match dropUpTo s (lastExpired s.nakRequests kept) with
    | .error fault => .error fault
    | .ok (dropped, s) => .ok (dropped, { s with nakRequests := kept })

theorem expireNaks_eq (config : Config) (s : Session) (now : Int) :
    expireNaks config s now = (expireDropping config s now).map Prod.snd := by
  unfold expireNaks expireDropping
  simp only
  split
  · rfl
  · cases dropUpTo s _ <;> rfl

/-- `nak_requests_[now] = seq`. -/
def recordRequest (now seq : Int) : List (Int × Int) → List (Int × Int)
  | [] => [(now, seq)]
  | r :: rest =>
    if r.1 < now then r :: recordRequest now seq rest
    else if r.1 = now then (now, seq) :: rest
    else (now, seq) :: r :: rest

theorem recordRequest_mem {now seq : Int} {requests : List (Int × Int)} {r : Int × Int}
    (h : r ∈ recordRequest now seq requests) : r = (now, seq) ∨ r ∈ requests := by
  induction requests with
  | nil => simpa [recordRequest] using h
  | cons x rest ih =>
    unfold recordRequest at h
    split at h
    · rcases List.mem_cons.mp h with rfl | h
      · exact .inr (by simp)
      · exact (ih h).imp id fun h => by simp [h]
    · split at h
      · rcases List.mem_cons.mp h with rfl | h
        · exact .inl rfl
        · exact .inr (by simp [h])
      · rcases List.mem_cons.mp h with rfl | h
        · exact .inl rfl
        · exact .inr h

/-- The test behind the loop: a range that was started and not yet recorded. -/
def closeIgnored (first second : Int) (ignored : List Range) : List Range :=
  if first ≠ 1 ∧ second ≠ 1 ∧ first ≠ second then ignored ++ [(first, second)] else ignored

/-- The loop over the recorded marks, most recent first and without the newest. `1`, the
default sequence number, stands for "not set" in `first` and `second`, and `oldest` is the
value at `nak_requests_.begin()`. -/
def ignoredLoop (config : Config) (oldest : Int) :
    Nat → List (Int × Int) → Int → Int → List Range → List Range
  | _, [], first, second, ignored => closeIgnored first second ignored
  | i, r :: rest, first, second, ignored =>
    if i > config.nakMax * (config.nakDelayIntervals + 1) then
      if first ≠ 1 then closeIgnored oldest second ignored
      else closeIgnored first second (ignored ++ [(oldest, r.2)])
    else
      let second := if i % (config.nakDelayIntervals + 1) = 1 then r.2 else second
      let first := if second ≠ 1 then r.2 else first
      if i % (config.nakDelayIntervals + 1) = 0 then
        let first := r.2
        if first ≠ 1 ∧ second ≠ 1 then
          ignoredLoop config oldest (i + 1) rest 1 1 (ignored ++ [(first, second)])
        else ignoredLoop config oldest (i + 1) rest first second ignored
      else ignoredLoop config oldest (i + 1) rest first second ignored

/-- The ranges for which no NAK is sent in this interval. -/
def ignoredRanges (config : Config) (nakRequests : List (Int × Int)) : List Range :=
  match nakRequests.reverse with
  | _ :: r :: rest =>
    ignoredLoop config ((nakRequests.head?.map Prod.snd).getD 0) 1 (r :: rest) 1 1 []
  | _ => []

/-- "Make contiguous between ignored sequences." -/
def suppress (received : List Range) : List Range → Except Fault (List Range)
  | [] => .ok received
  | r :: rest =>
    if r.2 > cumulativeAck received then
      let low := if r.1 < cumulativeAck received then cumulativeAck received else r.1
      match insertI received (low, r.2) with
      | .error fault => .error fault
      | .ok (_, received) => suppress received rest
    else suppress received rest

/-- The ranges requested by other peers, taken as they are. -/
def suppressPeers (received : List Range) : List Range → Except Fault (List Range)
  | [] => .ok received
  | r :: rest =>
    match insertI received r with
    | .error fault => .error fault
    | .ok (_, received) => suppressPeers received rest

/-- `send_naks`: the ranges of the NAK sent, if any, and the session. -/
def sendNaks (config : Config) (s : Session) (now : Int) : Except Fault (List Range × Session) :=
  if !s.acked then .ok ([], s)
  else if !disjoint s.nakSequence then .ok ([], s)
  else
    let s := { s with nakRequests := recordRequest now (high s.nakSequence) s.nakRequests }
    match suppress s.nakSequence (ignoredRanges config s.nakRequests) with
    | .error fault => .error fault
    | .ok received =>
      match suppressPeers received s.nakPeers with
      | .error fault => .error fault
      | .ok received =>
        .ok (if disjoint received then missingSequenceRanges received else [],
          { s with nakPeers := [] })

inductive Event where
  | header (header : TransportHeader)
  | control (header : TransportHeader) (control : Control)
  | tick (expireAt sendAt : Int)

/-- One event; `tick` is `NakWatchdog::on_interval`. -/
def step (config : Config) (s : Session) : Event → Except Fault Session
  | .header header =>
    match checkHeader s header with
    | .error fault => .error fault
    | .ok (_, s) => .ok s
  | .control header control => controlReceived config s header control
  | .tick expireAt sendAt =>
    match expireNaks config s expireAt with
    | .error fault => .error fault
    | .ok s =>
      match sendNaks config s sendAt with
      | .error fault => .error fault
      | .ok (_, s) => .ok s

def Session.started (remotePeer : Nat) (acked : Bool) : Session :=
  { remotePeer := remotePeer, acked := acked, nakSequence := [], nakRequests := [], nakPeers := [] }

end OpenDDS.Source.ReliableSession
