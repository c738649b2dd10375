import OpenDDS.Source.HeaderSplit
import OpenDDS.Source.SequenceNumber

/-!
# Splitting an RTPS message

`RtpsSampleHeader::split`, and how `into_received_data_sample` reads what comes out of it
(dds/DCPS/transport/rtps_udp/RtpsSampleHeader.cpp). The submessages of a message stand in one
block, the payload in the chain behind it. Allocation succeeds. A number in a submessage is
swapped when the flag for its order differs from the order of the host, so it always stands in
the order of the flag.
-/
namespace OpenDDS.Source.RtpsSampleHeader
open Library Library.Chain Serializer HeaderSplit

def DATA : UInt8 := 0x15
def DATA_FRAG : UInt8 := 0x16

def flagE : UInt8 := 1
def flagQ : UInt8 := 2
def flagD : UInt8 := 4
def flagKInData : UInt8 := 8
def flagKInFrag : UInt8 := 4

/-- The size of a submessage header. -/
def smhdrSz : Nat := 4

def dataFragOctetsToIqos : Nat := 28
def fragSize : Nat := 1024
def fragStartOffset : Nat := 24
def fragSampleSizeOffset : Nat := 32

inductive Undefined where
  /-- An octet behind the end of the block is read. -/
  | outside
  | payload (undefined : HeaderSplit.Undefined)
  deriving DecidableEq

/-- A message block with the submessages, and the blocks behind it. -/
structure Message where
  header : List UInt8
  cont : List (Block UInt8)

def Message.totalLength (m : Message) : Nat := m.header.length + Serializer.totalLength m.cont

def byteOrder (flags : UInt8) : ByteOrder :=
  if flags &&& flagE = 0 then .bigEndian else .littleEndian

def octet (rd : List UInt8) (offset : Nat) : Except Undefined UInt8 :=
  match rd[offset]? with
  | some b => .ok b
  | none => .error .outside

def octets (rd : List UInt8) (offset size : Nat) : Except Undefined (List UInt8) :=
  if offset + size ≤ rd.length then .ok ((rd.drop offset).take size) else .error .outside

/-- `peek` of a number of `size` octets. -/
def peek (order : ByteOrder) (rd : List UInt8) (offset size : Nat) : Except Undefined Nat :=
  match octets rd offset size with
  | .ok src => .ok (order.ofBytes src)
  | .error undefined => .error undefined

/-- The scan for the first submessage with data. -/
def findData (rd : List UInt8) (dataOffset : Nat) : Except Undefined (Option Nat) :=
  match octet rd dataOffset with
  | .error undefined => .error undefined
  | .ok kind =>
    match octet rd (dataOffset + 1) with
    | .error undefined => .error undefined
    | .ok flags =>
      if kind = DATA ∨ kind = DATA_FRAG then .ok (some dataOffset)
      else
        match peek (byteOrder flags) rd (dataOffset + 2) 2 with
        | .error undefined => .error undefined
        | .ok octetsToNextHeader =>
          if dataOffset + (octetsToNextHeader + smhdrSz) ≥ rd.length then .ok none
          else findData rd (dataOffset + (octetsToNextHeader + smhdrSz))
termination_by rd.length - dataOffset
decreasing_by
  simp only [smhdrSz] at *
  omega

structure Submessage where
  dataOffset : Nat
  kind : UInt8
  flags : UInt8
  startingFrag : Nat
  sampleSize : Nat
  /-- `readerId`, `writerId` and the sequence number. -/
  ids : List UInt8
  deriving DecidableEq

/-- The result of the scan. There is none where the range is unknown. -/
def submessage (orig : Message) : Except Undefined (Option Submessage) := do
  match ← findData orig.header 0 with
  | none => .ok none
  | some dataOffset =>
    let kind ← octet orig.header dataOffset
    let flags ← octet orig.header (dataOffset + 1)
    if kind = DATA then
      if flags &&& (flagD ||| flagKInData) = 0 then .ok none
      else
        let ids ← octets orig.header (dataOffset + 8) 16
        .ok (some ⟨dataOffset, kind, flags, 1, Serializer.totalLength orig.cont % 2 ^ 32, ids⟩)
    else
      let startingFrag ← peek (byteOrder flags) orig.header (dataOffset + fragStartOffset) 4
      let sampleSize ← peek (byteOrder flags) orig.header (dataOffset + fragSampleSizeOffset) 4
      let ids ← octets orig.header (dataOffset + 8) 16
      .ok (some ⟨dataOffset, kind, flags, startingFrag, sampleSize, ids⟩)

def dataFrag (order : ByteOrder) (flags : UInt8) (ids : List UInt8)
    (startingFrag frags sampleSize : Nat) : List UInt8 :=
  [DATA_FRAG, flags, 0, 0, 0, 0] ++ order.toBytes 2 dataFragOctetsToIqos ++ ids ++
    order.toBytes 4 startingFrag ++ order.toBytes 2 frags ++ order.toBytes 2 fragSize ++
    order.toBytes 4 sampleSize

def newFlags (kind flags : UInt8) : UInt8 :=
  if kind = DATA then
    let cleared := flags &&& ~~~(flagKInData ||| flagKInFrag)
    if flags &&& flagKInData = 0 then cleared else cleared ||| flagKInFrag
  else flags

/-- A fragment number as the `SequenceNumber` that it is converted to. -/
@[irreducible] def number (frag : Nat) : Nat := (SequenceNumber.ofValue frag).toNat

theorem number_eq (frag : Nat) : number frag = max frag 1 := by
  unfold number SequenceNumber.ofValue SequenceNumber.minValue
  split <;> omega

theorem number_of_pos {frag : Nat} (h : 0 < frag) : number frag = frag := by
  rw [number_eq]
  omega

/-- The range that `split` returns, and the two messages. -/
structure Halves where
  range : Nat × Nat
  head : Message
  tail : Message

/-- `split` once the submessage is found. -/
def splitAt (orig : Message) (size : Nat) (sm : Submessage) : Except Undefined Halves :=
  -- DATA_FRAG is 12 bytes larger than DATA
  let sz := if sm.kind = DATA then orig.header.length + 12 else orig.header.length
  let iqosOffset := sm.dataOffset + 8 + dataFragOctetsToIqos - if sm.kind = DATA then 12 else 0
  let order := byteOrder sm.flags
  let flags := newFlags sm.kind sm.flags
  let maxData := sizeSub size sz
  let origPayload := Serializer.totalLength orig.cont
  let frags := min maxData origPayload / fragSize % 2 ^ 16
  let iqos := if sm.flags &&& flagQ = 0 then [] else orig.header.drop iqosOffset
  let tailData := origPayload - frags * fragSize
  let tailFrags := (tailData + fragSize - 1) / fragSize % 2 ^ 16
  let front := orig.header.take sm.dataOffset
  match splitPayload orig.cont (frags * fragSize) with
  | .error undefined => .error (.payload undefined)
  | .ok (payloadHead, payloadTail) =>
    .ok
      { range := (number ((sm.startingFrag + frags + 2 ^ 32 - 1) % 2 ^ 32),
          number ((sm.startingFrag + frags + tailFrags + 2 ^ 32 - 1) % 2 ^ 32))
        head := ⟨front ++ dataFrag order flags sm.ids sm.startingFrag frags sm.sampleSize ++
          iqos, payloadHead⟩
        tail := ⟨front ++ dataFrag order (flags &&& ~~~flagQ) sm.ids (sm.startingFrag + frags)
          tailFrags sm.sampleSize, payloadTail⟩ }

def split (orig : Message) (size : Nat) : Except Undefined (Option Halves) := do
  match ← submessage orig with
  | none => .ok none
  | some sm => return some (← splitAt orig size sm)

/-- `split` of the tails for as long as a message is longer than `size`, at most `rounds` times:
the head of each with the range, and the last tail. -/
def fragment (size : Nat) : Nat → Message → Option (List (Message × Nat × Nat) × Message)
  | 0, orig => if orig.totalLength ≤ size then some ([], orig) else none
  | rounds + 1, orig =>
    if orig.totalLength ≤ size then some ([], orig)
    else
      match split orig size with
      | .ok (some halves) =>
        match fragment size rounds halves.tail with
        | some (heads, last) => some ((halves.head, halves.range) :: heads, last)
        | none => none
      | _ => none

structure DataFragSubmessage where
  fragmentStartingNum : Nat
  fragmentsInSubmessage : Nat
  fragmentSize : Nat
  sampleSize : Nat
  deriving DecidableEq

/-- `data_frag_sm` of the submessage with the data. -/
def dataFragSm (m : Message) : Except Undefined (Option DataFragSubmessage) := do
  match ← findData m.header 0 with
  | none => .ok none
  | some dataOffset =>
    let kind ← octet m.header dataOffset
    let flags ← octet m.header (dataOffset + 1)
    if kind = DATA then .ok none
    else
      let fragmentStartingNum ← peek (byteOrder flags) m.header (dataOffset + 24) 4
      let fragmentsInSubmessage ← peek (byteOrder flags) m.header (dataOffset + 28) 2
      let fragmentSize ← peek (byteOrder flags) m.header (dataOffset + 30) 2
      let sampleSize ← peek (byteOrder flags) m.header (dataOffset + 32) 4
      .ok (some ⟨fragmentStartingNum, fragmentsInSubmessage, fragmentSize, sampleSize⟩)

/-- What `into_received_data_sample` sets `more_fragments_` to. -/
def DataFragSubmessage.moreFragments (rtps : DataFragSubmessage) : Bool :=
  let lastFragInSubmsg :=
    (rtps.fragmentStartingNum + 2 ^ 32 - 1 + rtps.fragmentsInSubmessage) % 2 ^ 32
  decide (lastFragInSubmsg * rtps.fragmentSize % 2 ^ 32 < rtps.sampleSize)

section

theorem octet_eq_ok {rd : List UInt8} {offset : Nat} {b : UInt8} :
    octet rd offset = .ok b ↔ rd[offset]? = some b := by
  unfold octet
  cases rd[offset]? with
  | none => simp
  | some c => simp

theorem octet_of_take {a b : List UInt8} {stop offset : Nat} (h : b.take stop = a.take stop)
    (hlt : offset < stop) : octet b offset = octet a offset := by
  have hget : b[offset]? = a[offset]? := by
    rw [← List.getElem?_take_of_lt hlt, h, List.getElem?_take_of_lt hlt]
  unfold octet
  rw [hget]

theorem octets_of_take {a b : List UInt8} {stop offset size : Nat}
    (h : b.take stop = a.take stop) (ha : stop ≤ a.length) (hb : stop ≤ b.length)
    (hle : offset + size ≤ stop) : octets b offset size = octets a offset size := by
  have htake : ∀ l : List UInt8, (l.drop offset).take size =
      ((l.take stop).drop offset).take size := by
    intro l
    rw [List.drop_take, List.take_take, Nat.min_eq_left (by omega)]
  unfold octets
  rw [if_pos (by omega), if_pos (by omega), htake b, h, ← htake a]

theorem octets_chunk (front chunk back : List UInt8) :
    octets (front ++ chunk ++ back) front.length chunk.length = .ok chunk := by
  unfold octets
  rw [if_pos (by simp only [List.length_append]; omega), List.append_assoc, List.drop_left,
    List.take_left]

theorem peek_chunk (order : ByteOrder) (front back : List UInt8) {size v : Nat}
    (h : v < 256 ^ size) :
    peek order (front ++ order.toBytes size v ++ back) front.length size = .ok v := by
  have hchunk := octets_chunk front (order.toBytes size v) back
  rw [ByteOrder.length_toBytes] at hchunk
  unfold peek
  simp only [hchunk, ByteOrder.ofBytes_toBytes order h]

end

section

variable {a b : List UInt8} {start dataOffset : Nat}

theorem findData_spec (h : findData a start = .ok (some dataOffset)) :
    start ≤ dataOffset ∧ ∃ kind flags, octet a dataOffset = .ok kind ∧
      octet a (dataOffset + 1) = .ok flags ∧ (kind = DATA ∨ kind = DATA_FRAG) := by
  fun_induction findData a start with
  | case1 | case2 | case4 | case5 => cases h
  | case3 offset kind hkind flags hflags hdata =>
    obtain rfl : offset = dataOffset := by simpa using h
    exact ⟨Nat.le_refl _, kind, flags, hkind, hflags, hdata⟩
  | case6 offset kind hkind flags hflags hdata next hnext hlt ih =>
    obtain ⟨hle, hfound⟩ := ih h
    exact ⟨by omega, hfound⟩

theorem findData_of_take (h : findData a start = .ok (some dataOffset))
    (hfront : b.take dataOffset = a.take dataOffset) (hkind : octet b dataOffset = .ok DATA_FRAG)
    {flags : UInt8} (hflags : octet b (dataOffset + 1) = .ok flags) :
    findData b start = .ok (some dataOffset) := by
  have hlength : dataOffset < b.length := by
    obtain ⟨hlt, -⟩ := List.getElem?_eq_some_iff.mp (octet_eq_ok.mp hkind)
    exact hlt
  fun_induction findData a start with
  | case1 | case2 | case4 | case5 => cases h
  | case3 offset kind hkind' flags' hflags' hdata =>
    obtain rfl : offset = dataOffset := by simpa using h
    rw [findData]
    simp only [hkind, hflags, or_true, if_true]
  | case6 offset kind hkind' flags' hflags' hdata next hnext hlt ih =>
    obtain ⟨hle, k, f, hk, -⟩ := findData_spec h
    have ha : dataOffset < a.length := by
      obtain ⟨hlt, -⟩ := List.getElem?_eq_some_iff.mp (octet_eq_ok.mp hk)
      exact hlt
    have hsm : smhdrSz = 4 := rfl
    -- the scan has not reached the submessage with the data yet
    have hpeek : peek (byteOrder flags') b (offset + 2) 2 = .ok next := by
      unfold peek at hnext ⊢
      rw [octets_of_take hfront (by omega) (by omega) (by omega)]
      exact hnext
    rw [findData, octet_of_take hfront (by omega), octet_of_take hfront (by omega)]
    simp only [hkind', hflags', if_neg hdata, hpeek]
    rw [if_neg (by omega)]
    exact ih h

end

section

variable (front back : List UInt8) (order : ByteOrder) (flags : UInt8) {ids : List UInt8}
variable {startingFrag frags sampleSize : Nat}

theorem length_dataFrag (hids : ids.length = 16) :
    (dataFrag order flags ids startingFrag frags sampleSize).length = 36 := by
  simp only [dataFrag, List.length_append, ByteOrder.length_toBytes, hids, List.length_cons,
    List.length_nil]

variable (ids startingFrag frags sampleSize) in
theorem octet_dataFrag :
    octet (front ++ dataFrag order flags ids startingFrag frags sampleSize ++ back)
      front.length = .ok DATA_FRAG ∧
    octet (front ++ dataFrag order flags ids startingFrag frags sampleSize ++ back)
      (front.length + 1) = .ok flags := by
  simp only [octet_eq_ok, dataFrag, List.append_assoc, List.cons_append]
  constructor
  · rw [List.getElem?_append_right (Nat.le_refl _), Nat.sub_self]
    rfl
  · rw [List.getElem?_append_right (by omega), Nat.add_sub_cancel_left]
    rfl

theorem octets_ids (hids : ids.length = 16) :
    octets (front ++ dataFrag order flags ids startingFrag frags sampleSize ++ back)
      (front.length + 8) 16 = .ok ids := by
  have hchunk := octets_chunk
    (front ++ ([DATA_FRAG, flags, 0, 0, 0, 0] ++ order.toBytes 2 dataFragOctetsToIqos)) ids
    (order.toBytes 4 startingFrag ++ order.toBytes 2 frags ++ order.toBytes 2 fragSize ++
      order.toBytes 4 sampleSize ++ back)
  simp only [List.length_append, ByteOrder.length_toBytes, hids, List.length_cons,
    List.length_nil] at hchunk
  rw [← hchunk]
  simp only [dataFrag, List.append_assoc]

theorem peek_dataFrag (hids : ids.length = 16) (hstart : startingFrag < 2 ^ 32)
    (hfrags : frags < 2 ^ 16) (hsize : sampleSize < 2 ^ 32) :
    let rd := front ++ dataFrag order flags ids startingFrag frags sampleSize ++ back
    peek order rd (front.length + 24) 4 = .ok startingFrag ∧
    peek order rd (front.length + 28) 2 = .ok frags ∧
    peek order rd (front.length + 30) 2 = .ok fragSize ∧
    peek order rd (front.length + 32) 4 = .ok sampleSize := by
  intro rd
  have hread : ∀ before after : List UInt8, ∀ size v : Nat, v < 256 ^ size →
      dataFrag order flags ids startingFrag frags sampleSize =
        before ++ order.toBytes size v ++ after →
      peek order rd (front.length + before.length) size = .ok v := by
    intro before after size v hv heq
    have hchunk := peek_chunk order (front ++ before) (after ++ back) hv
    rw [List.length_append] at hchunk
    rw [← hchunk]
    simp only [rd, heq, List.append_assoc]
  let ahead := [DATA_FRAG, flags, 0, 0, 0, 0] ++ order.toBytes 2 dataFragOctetsToIqos ++ ids
  have hahead : ahead.length = 24 := by
    simp only [ahead, List.length_append, ByteOrder.length_toBytes, hids, List.length_cons,
      List.length_nil]
  refine ⟨?_, ?_, ?_, ?_⟩
  · have h := hread ahead (order.toBytes 2 frags ++ order.toBytes 2 fragSize ++
      order.toBytes 4 sampleSize) 4 startingFrag hstart
      (by simp only [ahead, dataFrag, List.append_assoc])
    rwa [hahead] at h
  · have h := hread (ahead ++ order.toBytes 4 startingFrag) (order.toBytes 2 fragSize ++
      order.toBytes 4 sampleSize) 2 frags hfrags
      (by simp only [ahead, dataFrag, List.append_assoc])
    rwa [List.length_append, ByteOrder.length_toBytes, hahead] at h
  · have h := hread (ahead ++ order.toBytes 4 startingFrag ++ order.toBytes 2 frags)
      (order.toBytes 4 sampleSize) 2 fragSize (by decide)
      (by simp only [ahead, dataFrag, List.append_assoc])
    rwa [List.length_append, List.length_append, ByteOrder.length_toBytes,
      ByteOrder.length_toBytes, hahead] at h
  · have h := hread (ahead ++ order.toBytes 4 startingFrag ++ order.toBytes 2 frags ++
      order.toBytes 2 fragSize) [] 4 sampleSize hsize
      (by simp only [ahead, dataFrag, List.append_assoc, List.append_nil])
    rwa [List.length_append, List.length_append, List.length_append, ByteOrder.length_toBytes,
      ByteOrder.length_toBytes, ByteOrder.length_toBytes, hahead] at h

variable {order flags}

section

variable (cont : List (Block UInt8)) (horder : byteOrder flags = order) (hids : ids.length = 16)
  (hstart : startingFrag < 2 ^ 32) (hfrags : frags < 2 ^ 16) (hsize : sampleSize < 2 ^ 32)
  (hfound : findData (front ++ dataFrag order flags ids startingFrag frags sampleSize ++ back) 0 =
    .ok (some front.length))
include horder hids hstart hfrags hsize hfound

theorem submessage_dataFrag :
    submessage ⟨front ++ dataFrag order flags ids startingFrag frags sampleSize ++ back, cont⟩ =
      .ok (some ⟨front.length, DATA_FRAG, flags, startingFrag, sampleSize, ids⟩) := by
  obtain ⟨hkind, hflags⟩ := octet_dataFrag front back order flags ids startingFrag frags sampleSize
  obtain ⟨hfirst, -, -, hlast⟩ := peek_dataFrag front back order flags hids hstart hfrags hsize
  unfold submessage
  simp only [bind, Except.bind, hfound, hkind, hflags, horder, fragStartOffset,
    fragSampleSizeOffset, hfirst, hlast, octets_ids front back order flags hids]
  rw [if_neg (by decide)]

theorem dataFragSm_dataFrag :
    dataFragSm ⟨front ++ dataFrag order flags ids startingFrag frags sampleSize ++ back, cont⟩ =
      .ok (some ⟨startingFrag, frags, fragSize, sampleSize⟩) := by
  obtain ⟨hkind, hflags⟩ := octet_dataFrag front back order flags ids startingFrag frags sampleSize
  obtain ⟨hfirst, hcount, hunit, hlast⟩ :=
    peek_dataFrag front back order flags hids hstart hfrags hsize
  unfold dataFragSm
  simp only [bind, Except.bind, hfound, hkind, hflags, horder, hfirst, hcount, hunit, hlast]
  rw [if_neg (by decide)]

end

end

end OpenDDS.Source.RtpsSampleHeader
