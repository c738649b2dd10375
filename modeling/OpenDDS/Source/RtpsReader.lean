import OpenDDS.Library.Run
import OpenDDS.Source.BitmapScan
import OpenDDS.Source.RtpsMessages

/-!
One reliable RTPS reader and one matched writer in `RtpsUdpDataLink`
(dds/DCPS/transport/rtps_udp/RtpsUdpDataLink.cpp, RtpsUdpReceiveStrategy.cpp): the
reception of DATA, GAP and HEARTBEAT submessages addressed to the reader and the
heartbeat-reply timer. Samples are an arbitrary type; the receive strategy's
reassembly buffer is represented by the sequence numbers it holds fragments of.

The state also keeps the samples handed to the reader and the ACKNACK submessages
sent, in order. NACK_FRAG submessages, which travel with an ACKNACK, are left out:
building them changes only their own counter.
-/
namespace OpenDDS.Source.RtpsReader
open Library.RangeList SequenceNumber DisjointSequence RtpsMessages

structure AckNackSubmessage where
  final : Bool
  bitmapBase : Int
  numBits : Nat
  bitmap : Bitmap
  count : Int

variable {α : Type}

/-- `RtpsUdpDataLink::WriterInfo`; `held_` and `frags_` are maps in key order. -/
structure WriterInfo (α : Type) where
  recvd : List Range
  held : List (Int × α)
  hbRange : Range
  frags : List (Int × Nat)
  ackPending : Bool
  initialHb : Bool
  heartbeatRecvdCount : Int
  hbFragRecvdCount : Int
  acknackCount : Int
  deriving DecidableEq, Repr

/-- The default constructor; the two ends of `hb_range_` start at one. -/
def WriterInfo.default : WriterInfo α :=
  { recvd := [], held := [], hbRange := (1, 1), frags := [], ackPending := false,
    initialHb := true, heartbeatRecvdCount := 0, hbFragRecvdCount := 0, acknackCount := 0 }

def shouldNack (info : WriterInfo α) : Bool :=
  if disjoint info.recvd ∧ cumulativeAck info.recvd < info.hbRange.2 then true
  else if !empty info.recvd then high info.recvd < info.hbRange.2
  else false

/-- Insertion into `held_`; a key that is present keeps its sample. -/
def holdSample (seq : Int) (sample : α) : List (Int × α) → List (Int × α)
  | [] => [(seq, sample)]
  | x :: xs =>
    if x.1 < seq then x :: holdSample seq sample xs
    else if x.1 = seq then x :: xs
    else (seq, sample) :: x :: xs

/-- `deliver_held_data`: the samples handed over, lowest first, and the writer's state. -/
def deliverHeldData (info : WriterInfo α) (durable : Bool) : List (Int × α) × WriterInfo α :=
  if durable ∧ (empty info.recvd ∨ 1 < low info.recvd) then ([], info)
  else
    let ca := cumulativeAck info.recvd
    (info.held.takeWhile fun x => x.1 ≤ ca,
      { info with held := info.held.dropWhile fun x => x.1 ≤ ca })

/-- The test in `process_data_i` for a sample that is new but has to wait. -/
def mustHold (info : WriterInfo α) (durable : Bool) (seq : Int) : Bool :=
  disjoint info.recvd ||
  (!empty info.recvd && cumulativeAck info.recvd != previous seq) ||
  (durable && !empty info.recvd && decide (1 < low info.recvd)) ||
  (durable && empty info.recvd && decide (1 < seq))

/-- `process_data_i`: whether the sample is withheld from the reader, the held samples
delivered meanwhile, and the writer's state. -/
def processDataI (durable : Bool) (info : WriterInfo α) (seq : Int) (sample : α) :
    Except Fault (Bool × List (Int × α) × WriterInfo α) :=
  let present := contains info.recvd seq
  let hold := !present && mustHold info durable seq
  match DisjointSequence.insert info.recvd seq with
  | .error fault => .error fault
  | .ok (_, recvd) =>
    let delivery := deliverHeldData
      { info with recvd := recvd
                  frags := info.frags.filter fun f => f.1 ≠ seq
                  held := if hold then holdSample seq sample info.held else info.held } durable
    .ok (present || hold, delivery.1, delivery.2)

/-- `process_gap_i`, with a bound on the iterations of the bitmap loop. -/
def processGapI (fuel : Nat) (durable : Bool) (info : WriterInfo α) (gap : GapSubmessage) :
    Except Fault (List (Int × α) × WriterInfo α) :=
  let base := gap.gapList.bitmapBase.value
  match insertI info.recvd (gap.gapStart.value, previous base) with
  | .error fault => .error fault
  | .ok (_, recvd) =>
    match insertBits fuel recvd base gap.gapList.numBits gap.gapList.bitmap with
    | .error fault => .error fault
    | .ok (_, recvd) => .ok (deliverHeldData { info with recvd := recvd } durable)

/-- The range a heartbeat adds to `recvd_`, if any. -/
def heartbeatRange (durable : Bool) (info : WriterInfo α) (first last : Int) : Option Range :=
  if !durable && info.initialHb then
    if empty info.recvd ∨ low info.recvd ≥ last then
      some (zero, if last > minValue then previous last else zero)
    else some (zero, low info.recvd)
  else if !empty info.recvd then
    some (zero, if first > minValue then previous first else zero)
  else none

def insertOption (seqs : List Range) : Option Range → Except Fault (List Range)
  | none => .ok seqs
  | some range =>
    match insertI seqs range with
    | .error fault => .error fault
    | .ok (_, seqs) => .ok seqs

/-- `has_fragments` over the heartbeat's range. -/
def hasFragments (fragKeys : List Int) (range : Range) : Bool :=
  fragKeys.any fun sn => range.1 ≤ sn && sn ≤ range.2

/-- `process_heartbeat_i`; the third component of the result is the request to schedule
the reply timer. -/
def processHeartbeatI (durable : Bool) (info : WriterInfo α) (heartbeat : HeartBeatSubmessage)
    (fragKeys : List Int) : Except Fault (List (Int × α) × WriterInfo α × Bool) :=
  if heartbeat.count ≤ info.heartbeatRecvdCount then .ok ([], info, false)
  else
    let first := heartbeat.firstSN.value
    let last := heartbeat.lastSN.value
    let info := { info with heartbeatRecvdCount := heartbeat.count, hbRange := (first, last) }
    if !durable && info.initialHb && decide (last < minValue) then .ok ([], info, false)
    else
      match insertOption info.recvd (heartbeatRange durable info first last) with
      | .error fault => .error fault
      | .ok recvd =>
        let delivery := deliverHeldData { info with recvd := recvd } durable
        let info := { delivery.2 with initialHb := false }
        let final := heartbeat.flags &&& 2#8 != 0
        let liveliness := heartbeat.flags &&& 4#8 != 0
        if !final || (!liveliness && (shouldNack info || (durable && empty info.recvd) ||
            hasFragments fragKeys info.hbRange)) then
          .ok (delivery.1, { info with ackPending := true }, true)
        else .ok (delivery.1, info, false)

/-- `process_hb_frag_i`, with the request to schedule the reply timer. -/
def processHbFragI (info : WriterInfo α) (hbFrag : HeartBeatFragSubmessage) : WriterInfo α × Bool :=
  if hbFrag.count ≤ info.hbFragRecvdCount then (info, false)
  else
    let info := { info with hbFragRecvdCount := hbFrag.count }
    let seq := hbFrag.writerSN.value
    if seq < info.hbRange.1 ∨ seq > info.hbRange.2 ∨ !contains info.recvd seq then
      let frags := (info.frags.filter fun f => f.1 < seq) ++
        (seq, hbFrag.lastFragmentNum) :: info.frags.filter fun f => seq < f.1
      ({ info with frags := frags, ackPending := true }, true)
    else (info, false)

/-- The bitmap of an ACKNACK while it is built: base, array length, words and bit count. -/
structure NackState where
  ack : Int
  length : Nat
  bitmap : Bitmap
  numBits : Nat

/-- `value + 255` on the 64-bit values of two numbers. -/
def plus255 (value : Int) : Int := (value + 255).bmod (2 ^ 64)

theorem plus255_of_le {value : Int} (hpos : 0 ≤ value) (hle : value + 255 ≤ maxValue) :
    plus255 value = value + 255 := by
  have hmax : maxValue = 2 ^ 63 - 1 := rfl
  exact Int.bmod_eq_of_le (by omega) (by omega)

/-- The bitmap that requests everything from `ack` up to `last`, at most 256 numbers. -/
def nackUpTo (ack last : Int) (memory : Bitmap) : NackState :=
  let length := bitmapNumLongs ack last
  let idx := if last > plus255 ack then 255 else toULong (last - ack)
  let filled := fillBitmapRange 0 idx memory length 1
  { ack := ack, length := length, bitmap := filled.2.1, numBits := filled.2.2 }

/-- The three ways in which `send_heartbeat_replies` starts its bitmap. The last one
also closes the discontinuity below the lowest number received. -/
def nackStart (durable : Bool) (info : WriterInfo α) (memory : Bitmap) :
    Except Fault (List Range × NackState) :=
  let recvd := info.recvd
  let nack := shouldNack info || (durable && empty recvd)
  let prevEmpty := durable && info.ackPending && !nack
  let memory := setWord memory 0 0
  if empty recvd then .ok (recvd, nackUpTo info.hbRange.1 info.hbRange.2 memory)
  else if prevEmpty && decide (low recvd > info.hbRange.1) then
    .ok (recvd, nackUpTo info.hbRange.1 (low recvd) memory)
  else
    let ack := next (cumulativeAck recvd)
    match (if low recvd > 1 then insertOption recvd (some (zero, low recvd)) else .ok recvd) with
    | .error fault => .error fault
    | .ok recvd =>
      if disjoint recvd then
        let length := bitmapNumLongs ack (previous (lastAck recvd))
        let filled := toBitmap recvd memory length true
        .ok (recvd, { ack := ack, length := length, bitmap := filled.2.1, numBits := filled.2.2 })
      else .ok (recvd, { ack := ack, length := 1, bitmap := memory, numBits := 1 })

/-- The numbers between the highest one received and the end of the heartbeat range. -/
def nackTail (recvd : List Range) (hbHigh : Int) (s : NackState) : NackState :=
  if !empty recvd && decide (hbHigh > high recvd) then
    let limit := ofValue (plus255 s.ack)
    let effHigh := if hbHigh ≤ limit then hbHigh else limit
    let newLen := bitmapNumLongs s.ack effHigh
    let bitmap := if newLen > s.length then fillWords s.bitmap s.length newLen 0 else s.bitmap
    let idxRecvHigh := if disjoint recvd then toULong (high recvd - s.ack) else 0
    let filled := fillBitmapRange idxRecvHigh (toULong (effHigh - s.ack)) bitmap newLen s.numBits
    { s with length := max s.length newLen, bitmap := filled.2.1, numBits := filled.2.2 }
  else s

/-- `remove_frags_from_bitmap`; the source's skip over zero words changes nothing. -/
def removeFragsFromBitmap (fragKeys : List Int) (s : NackState) : Bool × NackState :=
  (List.range s.numBits).foldl (fun acc i =>
    if bitSet acc.2.bitmap i && fragKeys.contains (ofValue (s.ack + i)) then
      (true, { acc.2 with
        bitmap := setWord acc.2.bitmap (i / 32) (acc.2.bitmap (i / 32) &&& ~~~ bitMask (i % 32)) })
    else acc) (false, s)

/-- The test whether a reduced bitmap still requests something. -/
def requestsNothing (s : NackState) : Bool :=
  (List.range s.length).all fun i =>
    if (i + 1) * 32 ≤ s.numBits then s.bitmap i == 0
    else (BitVec.allOnes 32 <<< (32 - s.numBits % 32)) &&& s.bitmap i == 0

/-- `send_heartbeat_replies` for one reader and one writer: the ACKNACK, if one is sent. -/
def sendHeartbeatReplies (durable : Bool) (info : WriterInfo α) (fragKeys : List Int)
    (memory : Bitmap) : Except Fault (Option AckNackSubmessage × WriterInfo α) :=
  let nack := shouldNack info || (durable && empty info.recvd)
  if info.ackPending || nack then
    match nackStart durable info memory with
    | .error fault => .error fault
    | .ok (recvd, start) =>
      let reduced := removeFragsFromBitmap fragKeys (nackTail recvd info.hbRange.2 start)
      let final := if reduced.1 && nack then requestsNothing reduced.2 else !nack
      .ok (some { final := final, bitmapBase := start.ack, numBits := reduced.2.numBits,
                  bitmap := reduced.2.bitmap, count := info.acknackCount + 1 },
        { info with recvd := recvd, ackPending := false, acknackCount := info.acknackCount + 1 })
  else .ok (none, info)

/-- What happens to the reader: a submessage of the writer arrives, or the timer fires. -/
inductive Event (α : Type) where
  | data (writerSN : SequenceNumber_t) (sample : α)
  | gap (gap : GapSubmessage)
  | heartbeat (heartbeat : HeartBeatSubmessage) (fragKeys : List Int)
  | hbFrag (hbFrag : HeartBeatFragSubmessage)
  | reply (fragKeys : List Int) (memory : Bitmap)

structure State (α : Type) where
  info : WriterInfo α
  delivered : List (Int × α)
  acknacks : List AckNackSubmessage

def State.initial : State α := { info := WriterInfo.default, delivered := [], acknacks := [] }

/-- One event. `RtpsUdpReceiveStrategy::deliver_sample` hands a DATA sample over after
`process_data_i` has returned, unless that withheld it. -/
def step (fuel : Nat) (durable : Bool) (s : State α) : Event α → Except Fault (State α)
  | .data writerSN sample =>
    match processDataI durable s.info writerSN.value sample with
    | .error fault => .error fault
    | .ok (withheld, held, info) =>
      let direct := if withheld then [] else [(writerSN.value, sample)]
      .ok { s with info := info, delivered := s.delivered ++ held ++ direct }
  | .gap gap =>
    match processGapI fuel durable s.info gap with
    | .error fault => .error fault
    | .ok (held, info) => .ok { s with info := info, delivered := s.delivered ++ held }
  | .heartbeat heartbeat fragKeys =>
    match processHeartbeatI durable s.info heartbeat fragKeys with
    | .error fault => .error fault
    | .ok (held, info, _) => .ok { s with info := info, delivered := s.delivered ++ held }
  | .hbFrag hbFrag => .ok { s with info := (processHbFragI s.info hbFrag).1 }
  | .reply fragKeys memory =>
    match sendHeartbeatReplies durable s.info fragKeys memory with
    | .error fault => .error fault
    | .ok (acknack, info) => .ok { s with info := info, acknacks := s.acknacks ++ acknack.toList }

/-- One event that the code gets through, in whatever number of loop iterations. -/
def Steps (durable : Bool) (s : State α) (e : Event α) (after : State α) : Prop :=
  ∃ fuel, step fuel durable s e = .ok after

/-- Everything one event can do. -/
theorem step_cases {fuel : Nat} {durable : Bool} {s after : State α} {e : Event α}
    (h : step fuel durable s e = .ok after) :
    (∃ writerSN sample withheld out info, e = .data writerSN sample ∧
      processDataI durable s.info writerSN.value sample = .ok (withheld, out, info) ∧
      after = { s with info := info
                       delivered := s.delivered ++ out ++
                         if withheld then [] else [(writerSN.value, sample)] }) ∨
    (∃ gap out info, e = .gap gap ∧ processGapI fuel durable s.info gap = .ok (out, info) ∧
      after = { s with info := info, delivered := s.delivered ++ out }) ∨
    (∃ hb fragKeys out info timer, e = .heartbeat hb fragKeys ∧
      processHeartbeatI durable s.info hb fragKeys = .ok (out, info, timer) ∧
      after = { s with info := info, delivered := s.delivered ++ out }) ∨
    (∃ hbFrag, e = .hbFrag hbFrag ∧ after = { s with info := (processHbFragI s.info hbFrag).1 }) ∨
    (∃ fragKeys memory acknack info, e = .reply fragKeys memory ∧
      sendHeartbeatReplies durable s.info fragKeys memory = .ok (acknack, info) ∧
      after = { s with info := info, acknacks := s.acknacks ++ acknack.toList }) := by
  unfold step at h
  cases e with
  | data writerSN sample =>
    dsimp only at h
    split at h
    · cases h
    · rename_i hres
      exact .inl ⟨_, _, _, _, _, rfl, hres, (Except.ok.inj h).symm⟩
  | gap gap =>
    dsimp only at h
    split at h
    · cases h
    · rename_i hres
      exact .inr (.inl ⟨_, _, _, rfl, hres, (Except.ok.inj h).symm⟩)
  | heartbeat hb fragKeys =>
    dsimp only at h
    split at h
    · cases h
    · rename_i hres
      exact .inr (.inr (.inl ⟨_, _, _, _, _, rfl, hres, (Except.ok.inj h).symm⟩))
  | hbFrag hbFrag =>
    exact .inr (.inr (.inr (.inl ⟨_, rfl, (Except.ok.inj h).symm⟩)))
  | reply fragKeys memory =>
    dsimp only at h
    split at h
    · cases h
    · rename_i hres
      exact .inr (.inr (.inr (.inr ⟨_, _, _, _, rfl, hres, (Except.ok.inj h).symm⟩)))

variable {after : WriterInfo α} {out : List (Int × α)}

section

variable {info : WriterInfo α} {durable : Bool}

/-- The GAP submessages for which every index and number of the bitmap scan is exact. -/
structure GapFits (recvd : List Range) (gap : GapSubmessage) : Prop where
  base : 2 ≤ gap.gapList.bitmapBase.value
  last : gap.gapList.bitmapBase.value + gap.gapList.numBits ≤ maxValue
  reach : recvd ≠ [] → high recvd + 1 < gap.gapList.bitmapBase.value + 2 ^ 32

theorem deliverHeldData_effects (info : WriterInfo α) (durable : Bool) :
    (deliverHeldData info durable).2 =
        { info with held := (deliverHeldData info durable).2.held } ∧
      info.held = (deliverHeldData info durable).1 ++ (deliverHeldData info durable).2.held ∧
      ((deliverHeldData info durable).1 ≠ [] → durable = true →
        info.recvd ≠ [] ∧ low info.recvd ≤ 1) ∧
      (∀ x ∈ (deliverHeldData info durable).1, x.1 ≤ cumulativeAck info.recvd) := by
  unfold deliverHeldData
  split
  · simp
  · rename_i hguard
    refine ⟨rfl, List.takeWhile_append_dropWhile.symm, fun _ hd => ?_, fun x hx => ?_⟩
    · simp only [hd, true_and, not_or, empty, List.isEmpty_iff] at hguard
      exact ⟨hguard.1, by omega⟩
    · simpa using List.mem_takeWhile_imp hx

private theorem deliverHeldData_flags (info : WriterInfo α) (durable initialHb ackPending : Bool) :
    deliverHeldData { info with initialHb := initialHb, ackPending := ackPending } durable =
      ((deliverHeldData info durable).1,
        { (deliverHeldData info durable).2 with
          initialHb := initialHb, ackPending := ackPending }) := by
  unfold deliverHeldData
  split <;> rfl

private theorem deliverHeldData_ackPending (info : WriterInfo α) (durable : Bool) :
    (deliverHeldData info durable).2.ackPending = info.ackPending := by
  unfold deliverHeldData
  split <;> rfl

theorem deliverHeldData_all (info : WriterInfo α) (durable : Bool)
    (hguard : durable = true → info.recvd ≠ [] ∧ low info.recvd ≤ 1)
    (hall : ∀ x ∈ info.held, x.1 ≤ cumulativeAck info.recvd) :
    (deliverHeldData info durable).2.held = [] := by
  unfold deliverHeldData
  rw [if_neg]
  · exact List.dropWhile_eq_nil_iff.mpr (by simpa using hall)
  · rintro ⟨hd, h | h⟩
    · exact (hguard hd).1 (by simpa [empty] using h)
    · have := (hguard hd).2
      omega

theorem insertOption_effects {seqs after : List Range} {range : Option Range}
    (wf : WellFormed seqs)
    (hr : ∀ r ∈ range, r.1 = 0 ∧ 0 ≤ r.2 ∧ r.2 < maxValue)
    (h : insertOption seqs range = .ok after) :
    WellFormed after ∧ ∀ n, Covers after n ↔ Covers seqs n ∨ ∃ r ∈ range, 0 ≤ n ∧ n ≤ r.2 := by
  cases range with
  | none =>
    cases h
    exact ⟨wf, by simp⟩
  | some r =>
    obtain ⟨h0, h1, h2⟩ := hr r rfl
    obtain ⟨grew, result, heq, hwf, hcov⟩ := insertI_spec r wf (by omega) (by omega)
      h2.le (fun hclash => by have := hclash.1; omega)
    simp only [insertOption, heq, Except.ok.injEq] at h
    subst h
    refine ⟨hwf, fun n => ?_⟩
    simp [hcov n, h0]

theorem processDataI_effects {seq : Int} {sample : α} {withheld : Bool} (wf : WellFormed info.recvd)
    (hpos : 1 ≤ seq) (hmax : seq ≤ maxValue)
    (h : processDataI durable info seq sample = .ok (withheld, out, after)) :
    ∃ recvd frags updated, WellFormed recvd ∧
      (∀ n, Covers recvd n ↔ Covers info.recvd n ∨ n = seq) ∧
      withheld = (contains info.recvd seq || mustHold info durable seq) ∧
      updated = { info with
        recvd := recvd, frags := frags,
        held := if !contains info.recvd seq && mustHold info durable seq
          then holdSample seq sample info.held else info.held } ∧
      out = (deliverHeldData updated durable).1 ∧ after = (deliverHeldData updated durable).2 := by
  obtain ⟨grew, recvd, heq, hwf, hcov⟩ := insertI_spec (seq, seq) wf (by simp only; omega)
    le_rfl hmax (fun ⟨_, r, hr, h₁, h₂⟩ => by
      have := wf.canonical.nonempty r hr
      omega)
  unfold processDataI DisjointSequence.insert at h
  simp only [heq, Except.ok.injEq, Prod.mk.injEq] at h
  obtain ⟨hw, hout, hafter⟩ := h
  refine ⟨recvd, info.frags.filter fun f => f.1 ≠ seq, _, hwf, fun n => ?_, ?_, rfl,
    hout.symm, hafter.symm⟩
  · rw [hcov n]
    constructor
    · rintro (h | h)
      · exact .inl h
      · exact .inr (by omega)
    · rintro (h | rfl)
      · exact .inl h
      · exact .inr ⟨le_rfl, le_rfl⟩
  · rw [← hw]
    cases contains info.recvd seq <;> simp

theorem deliverHeldData_frame (info : WriterInfo α) (durable : Bool) :
    (deliverHeldData info durable).2.recvd = info.recvd ∧
    (deliverHeldData info durable).2.hbRange = info.hbRange := by
  unfold deliverHeldData
  split <;> exact ⟨rfl, rfl⟩

theorem processGapI_eq {fuel : Nat} {gap : GapSubmessage}
    (h : processGapI fuel durable info gap = .ok (out, after)) :
    ∃ grew mid grew' recvd,
      insertI info.recvd (gap.gapStart.value, previous gap.gapList.bitmapBase.value) = .ok (grew, mid) ∧
      insertBits fuel mid gap.gapList.bitmapBase.value gap.gapList.numBits gap.gapList.bitmap =
        .ok (grew', recvd) ∧
      after.recvd = recvd ∧ deliverHeldData { info with recvd := recvd } durable = (out, after) := by
  simp only [processGapI] at h
  split at h
  · cases h
  · rename_i grew mid hrange
    split at h
    · cases h
    · rename_i grew' recvd hbits
      have hafter := Except.ok.inj h
      have hrecvd := (deliverHeldData_frame { info with recvd := recvd } durable).1
      rw [hafter] at hrecvd
      exact ⟨grew, mid, grew', recvd, hrange, hbits, hrecvd, hafter⟩

theorem processGapI_effects {fuel : Nat} {gap : GapSubmessage} (wf : WellFormed info.recvd)
    (fits : GapFits info.recvd gap) (h : processGapI fuel durable info gap = .ok (out, after)) :
    ∃ recvd, WellFormed recvd ∧ (∀ n, Covers info.recvd n → Covers recvd n) ∧
      (∀ n, gap.gapStart.value ≤ n → n < gap.gapList.bitmapBase.value → Covers recvd n) ∧
      (∀ n, Covers recvd n → Covers info.recvd n ∨
        (gap.gapStart.value ≤ n ∧ n < gap.gapList.bitmapBase.value) ∨
        ∃ k : Nat, n = gap.gapList.bitmapBase.value + k ∧
          Decodes gap.gapList.bitmap gap.gapList.numBits k) ∧
      out = (deliverHeldData { info with recvd := recvd } durable).1 ∧
      after = (deliverHeldData { info with recvd := recvd } durable).2 := by
  have hbase := fits.base
  have hlast := fits.last
  have hstart := gap.gapStart.value_pos
  have hsize := gap.gapList.numBits_le
  obtain ⟨grew, mid, grew', recvd, hrange, hbits, -, hafter⟩ := processGapI_eq h
  rw [previous_of_ne (by omega)] at hrange
  have hasc : gap.gapStart.value ≤ gap.gapList.bitmapBase.value - 1 := by
    by_contra hdesc
    simp [insertI, show gap.gapList.bitmapBase.value - 1 < gap.gapStart.value by omega] at hrange
  obtain ⟨_, _, heq, hwf, hcov⟩ := insertI_spec
    (gap.gapStart.value, gap.gapList.bitmapBase.value - 1) wf (by simp only; omega)
    hasc (by simp only; omega) (fun hclash => by have := hclash.1; simp only at this; omega)
  rw [hrange] at heq
  cases heq
  have hreach : ∀ n, Covers mid n → n + 1 < gap.gapList.bitmapBase.value + 2 ^ 32 := by
    intro n hn
    rcases (hcov n).mp hn with hn | hn
    · have h₁ := fits.reach (ne_nil_of_covers hn)
      have h₂ := le_high wf.canonical hn
      omega
    · omega
  obtain ⟨hwf', hkeeps, -, hadds⟩ := insertBits_spec hwf
    ⟨by omega, by omega, hlast, by omega⟩ (by omega) hreach hbits
  refine ⟨recvd, hwf', fun n hn => hkeeps n ((hcov n).mpr (.inl hn)), fun n h₁ h₂ => ?_,
    fun n hn => ?_, by rw [hafter], by rw [hafter]⟩
  · exact hkeeps n ((hcov n).mpr (.inr ⟨h₁, by simp only; omega⟩))
  · rcases hadds n hn with hn | hn
    · rcases (hcov n).mp hn with hn | hn
      · exact .inl hn
      · exact .inr (.inl ⟨by omega, by omega⟩)
    · exact .inr (.inr hn)

theorem heartbeatRange_bounds {first last : Int} (wf : WellFormed info.recvd)
    (hfirst : first ≤ maxValue) (hlast : last ≤ maxValue) :
    ∀ r ∈ heartbeatRange durable info first last, r.1 = 0 ∧ 0 ≤ r.2 ∧ r.2 < maxValue := by
  have hbefore : ∀ v : Int, v ≤ maxValue →
      0 ≤ (if v > minValue then previous v else zero) ∧
        (if v > minValue then previous v else zero) < maxValue := by
    intro v hv
    unfold minValue
    split
    · rw [previous_of_ne (by omega)]
      omega
    · exact ⟨le_rfl, by unfold zero maxValue; omega⟩
  have hlow := low_nonneg wf
  intro r hr
  unfold heartbeatRange at hr
  split at hr
  · split at hr
    · cases hr
      exact ⟨rfl, hbefore last hlast⟩
    · cases hr
      exact ⟨rfl, hlow, by simp only; omega⟩
  · split at hr
    · cases hr
      exact ⟨rfl, hbefore first hfirst⟩
    · cases hr

private theorem eq_singleton_of_low_eq_maxValue {seqs : List Range} (wf : WellFormed seqs)
    (hne : seqs ≠ []) (hlow : low seqs = maxValue) : seqs = [(maxValue, maxValue)] := by
  cases seqs with
  | nil => exact absurd rfl hne
  | cons x rest =>
    rw [low_cons] at hlow
    have h₁ := wf.canonical.nonempty x (by simp)
    have h₂ := (wf.within x (by simp)).2
    cases rest with
    | nil => rw [← hlow, show x = (x.1, x.2) from rfl, show x.2 = x.1 by omega]
    | cons y rest =>
      have h₃ := wf.canonical.head_lt (x := y) (by simp)
      have h₄ := wf.canonical.nonempty y (by simp)
      have h₅ := (wf.within y (by simp)).2
      omega

/-- Closing the lower discontinuity adds everything below `low()`, or, when only the
largest value was received, nothing. -/
theorem insertBelowLow_effects {seqs after : List Range} (wf : WellFormed seqs) (hne : seqs ≠ [])
    (h : insertOption seqs (some (zero, low seqs)) = .ok after) :
    after = seqs ∨
      (WellFormed after ∧ ∀ n, Covers after n ↔ Covers seqs n ∨ (0 ≤ n ∧ n ≤ low seqs)) := by
  obtain ⟨r, hr, -, hle⟩ := covers_low wf.canonical hne
  have hmax := (wf.within r hr).2
  rcases lt_or_eq_of_le (hle.trans hmax) with hlt | heq
  · right
    obtain ⟨hwf, hcov⟩ := insertOption_effects wf (by simpa using ⟨rfl, low_nonneg wf, hlt⟩) h
    exact ⟨hwf, by simpa using hcov⟩
  · left
    rw [eq_singleton_of_low_eq_maxValue wf hne heq] at h ⊢
    exact (Except.ok.inj h).symm

theorem nackStart_effects {memory : Bitmap} {recvd : List Range} {start : NackState}
    (wf : WellFormed info.recvd) (h : nackStart durable info memory = .ok (recvd, start)) :
    (recvd = info.recvd ∧ start.ack = info.hbRange.1) ∨
    (info.recvd ≠ [] ∧ start.ack = next (cumulativeAck info.recvd) ∧
      (durable = true → info.ackPending = true → shouldNack info = false →
        low info.recvd ≤ info.hbRange.1) ∧
      (recvd = info.recvd ∨ (WellFormed recvd ∧
        ∀ n, Covers recvd n ↔ Covers info.recvd n ∨ (0 ≤ n ∧ n ≤ low info.recvd)))) := by
  unfold nackStart at h
  simp only at h
  split at h
  · cases h
    exact .inl ⟨rfl, rfl⟩
  · rename_i hne
    have hne : info.recvd ≠ [] := by simpa [empty] using hne
    split at h
    · cases h
      exact .inl ⟨rfl, rfl⟩
    · rename_i hbranch
      right
      have hlow : durable = true → info.ackPending = true → shouldNack info = false →
          low info.recvd ≤ info.hbRange.1 := by
        intro h₁ h₂ h₃
        have hemp : empty info.recvd = false := by simpa [empty] using hne
        simpa [h₁, h₂, h₃, hemp] using hbranch
      cases hins : (if low info.recvd > 1 then
          insertOption info.recvd (some (zero, low info.recvd)) else .ok info.recvd) with
      | error fault => simp [hins] at h
      | ok result =>
        have hgrow : result = info.recvd ∨ (WellFormed result ∧
            ∀ n, Covers result n ↔ Covers info.recvd n ∨ (0 ≤ n ∧ n ≤ low info.recvd)) := by
          split at hins
          · exact insertBelowLow_effects wf hne hins
          · exact .inl (Except.ok.inj hins).symm
        simp only [hins] at h
        split at h <;> (cases h; exact ⟨hne, rfl, hlow, hgrow⟩)

theorem sendHeartbeatReplies_effects {fragKeys : List Int} {memory : Bitmap}
    {acknack : Option AckNackSubmessage}
    (h : sendHeartbeatReplies durable info fragKeys memory = .ok (acknack, after)) :
    (acknack = none ∧ after = info) ∨
    ∃ recvd start sent, nackStart durable info memory = .ok (recvd, start) ∧
      (info.ackPending = true ∨ shouldNack info = true ∨ info.recvd = []) ∧
      acknack = some sent ∧ sent.bitmapBase = start.ack ∧
      after = { info with recvd := recvd, ackPending := false,
                          acknackCount := info.acknackCount + 1 } := by
  unfold sendHeartbeatReplies at h
  simp only at h
  split at h
  · rename_i hguard
    right
    cases hstart : nackStart durable info memory with
    | error fault => simp [hstart] at h
    | ok result =>
      simp only [hstart, Except.ok.injEq, Prod.mk.injEq] at h
      refine ⟨result.1, result.2, _, rfl, ?_, h.1.symm, rfl, h.2.symm⟩
      simp only [Bool.or_eq_true, Bool.and_eq_true, empty, List.isEmpty_iff] at hguard
      rcases hguard with h | h | h
      · exact .inl h
      · exact .inr (.inl h)
      · exact .inr (.inr h.2)
  · cases h
    exact .inl ⟨rfl, rfl⟩

theorem processHeartbeatI_effects {hb : HeartBeatSubmessage} {fragKeys : List Int} {timer : Bool}
    (h : processHeartbeatI durable info hb fragKeys = .ok (out, after, timer)) :
    (hb.count ≤ info.heartbeatRecvdCount ∧ out = [] ∧ after = info) ∨
    (info.heartbeatRecvdCount < hb.count ∧ ∃ recvd updated ackPending,
      insertOption info.recvd
        (heartbeatRange durable info hb.firstSN.value hb.lastSN.value) = .ok recvd ∧
      updated = { info with
        recvd := recvd, heartbeatRecvdCount := hb.count, initialHb := false,
        hbRange := (hb.firstSN.value, hb.lastSN.value), ackPending := ackPending } ∧
      out = (deliverHeldData updated durable).1 ∧
      after = (deliverHeldData updated durable).2) := by
  unfold processHeartbeatI at h
  split at h
  · rename_i hcount
    simp only [Except.ok.injEq, Prod.mk.injEq] at h
    exact .inl ⟨hcount, h.1.symm, h.2.1.symm⟩
  · right
    have hlast : ¬ hb.lastSN.value < minValue := by
      have := hb.lastSN.value_pos
      unfold minValue
      omega
    simp only [hlast, decide_false, Bool.and_false, Bool.false_eq_true, if_false] at h
    refine ⟨by omega, ?_⟩
    have hsame : heartbeatRange durable
        { info with heartbeatRecvdCount := hb.count,
                    hbRange := (hb.firstSN.value, hb.lastSN.value) }
        hb.firstSN.value hb.lastSN.value =
      heartbeatRange durable info hb.firstSN.value hb.lastSN.value := rfl
    cases hins : insertOption info.recvd
        (heartbeatRange durable info hb.firstSN.value hb.lastSN.value) with
    | error fault => simp [hsame, hins] at h
    | ok recvd =>
      simp only [hsame, hins] at h
      have hflags := deliverHeldData_flags
        { info with recvd := recvd, heartbeatRecvdCount := hb.count,
                    hbRange := (hb.firstSN.value, hb.lastSN.value) } durable false
      split at h
      · simp only [Except.ok.injEq, Prod.mk.injEq] at h
        refine ⟨recvd, _, true, rfl, rfl, ?_, ?_⟩
        · exact h.1.symm.trans (congrArg Prod.fst (hflags true)).symm
        · exact h.2.1.symm.trans (congrArg Prod.snd (hflags true)).symm
      · simp only [Except.ok.injEq, Prod.mk.injEq] at h
        rw [deliverHeldData_ackPending] at h
        refine ⟨recvd, _, info.ackPending, rfl, rfl, ?_, ?_⟩
        · exact h.1.symm.trans (congrArg Prod.fst (hflags info.ackPending)).symm
        · exact h.2.1.symm.trans (congrArg Prod.snd (hflags info.ackPending)).symm

end

end OpenDDS.Source.RtpsReader
