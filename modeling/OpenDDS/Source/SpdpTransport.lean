import OpenDDS.Source.SerializerRead

/-!
The submessage loop of `Spdp::SpdpTransport::handle_input` (dds/DCPS/RTPS/Spdp.cpp), behind the
RTPS header. `operator>>` of the RTPS structures is generated from their IDL and a parameter.
-/
namespace OpenDDS.Source.SpdpTransport
open Library Serializer

/-- `buff_.length()`. -/
def bufferLength (r : Reader) : Nat := (Chain.contents r.current).length

/-- The generated operators, with a value on success, and what is read of `DataSubmessage`. -/
structure Operators (δ π : Type) where
  data : Reader → Except Fault (Option δ × Reader)
  smHeader : Reader → Except Fault (Option (BitVec 16) × Reader)
  plist : Reader → Except Fault (Option π × Reader)
  submessageLength : δ → BitVec 16
  flags : δ → UInt8
  /-- `writerId` is `ENTITYID_SPDP_BUILTIN_PARTICIPANT_WRITER`. -/
  fromSpdpWriter : δ → Bool

variable {δ π : Type}

/-- Success is forward, and over the four octets of a submessage header. -/
structure Operators.Forward (ops : Operators δ π) : Prop where
  data : ∀ {r x after}, ops.data r = .ok (some x, after) → bufferLength after + 4 ≤ bufferLength r
  smHeader : ∀ {r x after}, ops.smHeader r = .ok (some x, after) →
    bufferLength after + 4 ≤ bufferLength r
  plist : ∀ {r x after}, ops.plist r = .ok (some x, after) → bufferLength after ≤ bufferLength r

/-- Behind the extraction of a submessage. -/
structure Decoded (δ π : Type) where
  reader : Reader
  submessageLength : BitVec 16
  /-- The arguments of `data_received`. -/
  delivered : Option (δ × π)

/-- `swap_bytes(little != ACE_CDR_BYTE_ORDER)`. -/
def withOrder (host : ByteOrder) (little : Bool) (r : Reader) : Reader :=
  { r with swapBytes := little != (host == .littleEndian) }

section

variable (ops : Operators δ π) (host : ByteOrder) (participant : π)

/-- The encapsulation header, `PL_CDR_LE` or `PL_CDR_BE`, and the parameter list. -/
def payload (r : Reader) : Except Fault (Option π × Reader) :=
  match (withOrder host true r).readPrimitive host .ushort with
  | .error fault => .error fault
  | .ok ((encap : BitVec 16), r) =>
    if !r.goodBit || (encap != 0x0300#16 && encap != 0x0200#16) then .ok (none, r)
    else
      match r.readPrimitive host .ushort with
      | .error fault => .error fault
      | .ok (_, r) => ops.plist (withOrder host (encap &&& 0x100#16 != 0#16) r)

/-- The switch; nothing when it returns. `participant` is the list with only the GUID. -/
def decode (r : Reader) : Except Fault (Option (Decoded δ π)) :=
  let subm := (Chain.contents r.current).getD 0 0
  let flags := (Chain.contents r.current).getD 1 0
  let r := withOrder host (flags &&& 1 = 1) r
  if subm = 0x15 then
    match ops.data r with
    | .error fault => .error fault
    | .ok (none, _) => .ok none
    | .ok (some data, r) =>
      let submessageLength := ops.submessageLength data
      if !ops.fromSpdpWriter data then .ok (some ⟨r, submessageLength, none⟩)
      else if ops.flags data &&& 12 = 0 then
        .ok (some ⟨r, submessageLength, some (data, participant)⟩)
      else
        match payload ops host r with
        | .error fault => .error fault
        | .ok (none, _) => .ok none
        | .ok (some plist, r) => .ok (some ⟨r, submessageLength, some (data, plist)⟩)
  else
    match ops.smHeader r with
    | .error fault => .error fault
    | .ok (none, _) => .ok none
    | .ok (some submessageLength, r) => .ok (some ⟨r, submessageLength, none⟩)

/-- `ser.skip`, with its `UShort`, when there is something behind the submessage. -/
def Decoded.skipRest (d : Decoded δ π) (start : Nat) : Reader :=
  let read := start - bufferLength d.reader
  if bufferLength d.reader ≠ 0 ∧ read < d.submessageLength.toNat + 4 then
    d.reader.skipBytes ((d.submessageLength.toNat + 4 - read) % 2 ^ 16)
  else d.reader

/-- The loop, with the buffer's length in front of each of its submessages; nothing when the turns
do not suffice. -/
def handleInput : Nat → Reader → Except Fault (Option (List (Nat × Decoded δ π)))
  | 0, _ => .ok none
  | turns + 1, r =>
    if bufferLength r ≤ 3 then .ok (some [])
    else
      match decode ops host participant r with
      | .error fault => .error fault
      | .ok none => .ok (some [])
      | .ok (some d) =>
        if d.submessageLength = 0 then .ok (some [(bufferLength r, d)])
        else
          (handleInput turns (d.skipRest (bufferLength r))).map (Option.map ((bufferLength r, d) :: ·))

variable {ops host participant}

theorem readPrimitive_le {r after : Reader} {t : Primitive} {x : BitVec (8 * t.size)}
    (h : r.readPrimitive host t = .ok (x, after)) : bufferLength after ≤ bufferLength r := by
  have hextract : r.extract host (.primitive t) = .ok (.primitive t x, after) := by
    simp [Reader.extract, h, Except.map]
  obtain ⟨n, hn⟩ := extract_moved host hextract
  simp [bufferLength, hn.contents]

theorem bufferLength_skipBytes (r : Reader) (len : Nat) :
    bufferLength (r.skipBytes len) = bufferLength r - len := by
  simp [bufferLength, (skipBytes_advanced r len).contents]

theorem Decoded.skipRest_le (d : Decoded δ π) (start : Nat) :
    bufferLength (d.skipRest start) ≤ bufferLength d.reader := by
  simp only [skipRest]
  split
  · rw [bufferLength_skipBytes]
    omega
  · exact Nat.le_refl _

theorem Decoded.bufferLength_skipRest {d : Decoded δ π} {start : Nat}
    (hread : bufferLength d.reader + 4 ≤ start)
    (hle : start ≤ bufferLength d.reader + (d.submessageLength.toNat + 4)) :
    bufferLength (d.skipRest start) = start - (d.submessageLength.toNat + 4) := by
  have hsmall := d.submessageLength.isLt
  simp only [skipRest]
  split
  · rw [bufferLength_skipBytes]
    omega
  · omega

variable {r : Reader} (hops : ops.Forward)

include hops

theorem payload_le {x : π} {after : Reader} (h : payload ops host r = .ok (some x, after)) :
    bufferLength after ≤ bufferLength r := by
  unfold payload at h
  split at h
  · cases h
  · rename_i hencap
    have hfirst := readPrimitive_le hencap
    split at h
    · cases h
    · split at h
      · cases h
      · rename_i hoptions
        have hsecond := readPrimitive_le hoptions
        exact Nat.le_trans (hops.plist h) (Nat.le_trans hsecond hfirst)

theorem decode_le {d : Decoded δ π} (h : decode ops host participant r = .ok (some d)) :
    bufferLength d.reader + 4 ≤ bufferLength r := by
  simp only [decode] at h
  split at h
  · split at h
    · cases h
    · cases h
    · rename_i hdata
      have hle := hops.data hdata
      split at h
      · cases h
        exact hle
      · split at h
        · cases h
          exact hle
        · split at h
          · cases h
          · cases h
          · rename_i hpayload
            cases h
            exact Nat.le_trans (Nat.add_le_add_right (payload_le hops hpayload) 4) hle
  · split at h
    · cases h
    · cases h
    · rename_i hheader
      have hle := hops.smHeader hheader
      cases h
      exact hle

end

end OpenDDS.Source.SpdpTransport
