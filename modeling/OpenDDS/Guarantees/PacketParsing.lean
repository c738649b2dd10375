import OpenDDS.Guarantees.HeaderFormat
import OpenDDS.Source.ReceiveStrategy

/-!
# Parsing a stream of packets

Packets as they stand in a stream, and what a receive strategy makes of them whichever way
the stream comes in: while its ring is sound, every step of the two loops takes what the
stream has next and leaves the rest to be parsed.
-/
namespace OpenDDS.Guarantees.PacketParsing

open Library Library.Chain Library.BufferRing Source Source.Serializer Source.ReceiveStrategy
open DataSampleHeader (octetArray aceCdrByteOrder hasFlag flagBit maskFlag guidSeqSize messageIdMax
  submessageIdMax)
open HeaderFormat

section

open TransportHeader

theorem hasFlag_transport (h : TransportHeader.Header) :
    hasFlag h.flags byteOrderFlag = h.byteOrder ∧
    hasFlag h.flags firstFragmentFlag = h.firstFragment ∧
    hasFlag h.flags lastFragmentFlag = h.lastFragment := by
  unfold TransportHeader.Header.flags
  generalize h.byteOrder = b₀
  generalize h.firstFragment = b₁
  generalize h.lastFragment = b₂
  revert b₀ b₁ b₂
  decide

variable (host : ByteOrder)

/-- The wire bytes of a transport header, in the byte order its flag says. -/
def transportBytes (h : TransportHeader.Header) : List UInt8 :=
  payloads host false h.octets ++ payloads host (h.byteOrder != aceCdrByteOrder host) h.numbers

theorem transportBytes_length (h : TransportHeader.Header) :
    (transportBytes host h).length = maxMarshaledSize := by
  rw [transportBytes, List.length_append, payloads_length, payloads_length]
  simp only [payloadSizes, Header.octets, Header.numbers, List.map_cons, List.map_nil,
    octetArray_size, List.sum_cons, List.sum_nil]
  rfl

theorem transportMarshal_ok (h : TransportHeader.Header) {buffer : Block UInt8}
    (horder : h.byteOrder = aceCdrByteOrder host)
    (hbuffer : maxMarshaledSize ≤ buffer.items.length) :
    ∃ w, TransportHeader.marshal host buffer h = .ok w ∧ w.goodBit = true ∧
      w.written = transportBytes host h := by
  have hsame : (h.byteOrder != aceCdrByteOrder host) = false := by simp [horder]
  have hlength := transportBytes_length host h
  rw [transportBytes, hsame, ← payloads_append, payloads_length] at hlength
  have hfits : payloadSizes (h.octets ++ h.numbers) ≤ (contents [buffer]).length := by
    simp only [contents_cons, contents_nil, List.append_nil]
    omega
  obtain ⟨w, hok, hgood, hwritten⟩ := insertAll_fits host (h.octets ++ h.numbers)
    (Writer.ofChain [buffer] false .none) rfl rfl hfits
  refine ⟨w, hok, hgood, ?_⟩
  rw [transportBytes, hsame, ← payloads_append, hwritten]
  rfl

theorem transportInit_ok (old h : TransportHeader.Header) (buffer : List (Block UInt8))
    (more : List UInt8) (hbuffer : contents buffer = transportBytes host h ++ more) :
    ∃ r, TransportHeader.init host old buffer = .ok (h, r) ∧ contents r.current = more := by
  rw [transportBytes, List.append_assoc] at hbuffer
  have hoctetsRep : ∀ v ∈ h.octets, v.Representable := by
    intro v hv
    simp only [Header.octets, List.mem_cons, List.not_mem_nil, or_false] at hv
    rcases hv with rfl | rfl | rfl <;> trivial
  have hnumbersRep : ∀ v ∈ h.numbers, v.Representable := by
    intro v hv
    simp only [Header.numbers, List.mem_cons, List.not_mem_nil, or_false] at hv
    rcases hv with rfl | rfl | rfl | rfl <;> trivial
  have hstart : Ready (Reader.ofChain buffer false .none) false
      (payloads host false h.octets ++ _) := ⟨rfl, rfl, rfl, hbuffer⟩
  obtain ⟨r, hoctets, hready⟩ := extractAll_values host h.octets hoctetsRep _ _ hstart
  have hready' : Ready { r with swapBytes := h.byteOrder != aceCdrByteOrder host }
      (h.byteOrder != aceCdrByteOrder host)
      (payloads host (h.byteOrder != aceCdrByteOrder host) h.numbers ++ more) :=
    ⟨hready.goodBit, hready.alignment, rfl, hready.contents⟩
  obtain ⟨r', hnumbers, hready''⟩ := extractAll_values host h.numbers hnumbersRep _ _ hready'
  refine ⟨r', ?_, hready''.contents⟩
  obtain ⟨h₀, h₁, h₂⟩ := hasFlag_transport h
  have hextract : h.octets.map Value.extraction = octetExtractions := by
    simp only [Header.octets, List.map_cons, List.map_nil, octetArray_extraction]
    rfl
  have hstore : ∀ old : TransportHeader.Header, storeOctets (h.octets.map Value.datum) old =
      { old with
        protocol := h.protocol, byteOrder := h.byteOrder, firstFragment := h.firstFragment
        lastFragment := h.lastFragment, reserved := h.reserved } := by
    intro old
    simp only [Header.octets, octetArray, List.map_cons, List.map_nil, Value.datum, storeOctets,
      octetsOf_toList, h₀, h₁, h₂]
  rw [hextract] at hoctets
  have hnumbersExtract : h.numbers.map Value.extraction = numberExtractions := rfl
  rw [hnumbersExtract] at hnumbers
  unfold TransportHeader.init
  simp only [hoctets, hstore, hnumbers]
  rfl

end

/-- A sample as it is sent: its header, the entries of a content filter, the payload. -/
structure Sample where
  header : DataSampleHeader.Header
  entries : List DataSampleHeader.GUID
  payload : List UInt8

structure Packet where
  header : TransportHeader.Header
  samples : List Sample

section

variable (host : ByteOrder)

def samplesBytes (ss : List Sample) : List UInt8 :=
  ss.flatMap fun s => wireBytes host s.header s.entries ++ s.payload

def packetsBytes (ps : List Packet) : List UInt8 :=
  ps.flatMap fun p => transportBytes host p.header ++ samplesBytes host p.samples

@[simp] theorem samplesBytes_cons (s : Sample) (ss : List Sample) :
    samplesBytes host (s :: ss) =
      wireBytes host s.header s.entries ++ (s.payload ++ samplesBytes host ss) := by
  simp [samplesBytes]

@[simp] theorem packetsBytes_cons (p : Packet) (ps : List Packet) :
    packetsBytes host (p :: ps) =
      transportBytes host p.header ++ (samplesBytes host p.samples ++ packetsBytes host ps) := by
  simp [packetsBytes]

end

structure Sample.WellFormed (s : Sample) : Prop where
  messageId : s.header.messageId.toNat < messageIdMax
  submessageId : s.header.submessageId.toNat < submessageIdMax
  entries : s.entries.length < 2 ^ 32
  length : s.header.messageLength.toNat = s.payload.length

structure Packet.WellFormed (host : ByteOrder) (p : Packet) : Prop where
  valid : p.header.valid = true
  samples : ∀ s ∈ p.samples, s.WellFormed
  length : p.header.length.toNat = (samplesBytes host p.samples).length

section

variable (reassemble : Reassemble)

/-- What becomes of the samples of a packet, or of those left of it. -/
def samplesLog (header : TransportHeader.Header) : List Sample → Log → Log
  | [], log => log
  | s :: ss, log =>
    samplesLog { header with lastFragment := false } ss
      (Log.accept reassemble header s.payload
        { log with header := decoded log.header s.header s.entries })

def packetsLog (ps : List Packet) (log : Log) : Log :=
  ps.foldl (fun log p => samplesLog reassemble p.header p.samples log) log

end

variable {host : ByteOrder} {reassemble : Reassemble} {r : Receiving} {rest more future : List UInt8}
  {ss : List Sample} {ps : List Packet} {final : Log}

theorem decoded_messageLength (old h : DataSampleHeader.Header)
    (entries : List DataSampleHeader.GUID) :
    (decoded old h entries).messageLength = h.messageLength := by
  unfold decoded
  split <;> rfl

theorem decoded_marshaledSize (host : ByteOrder) (old h : DataSampleHeader.Header)
    (entries : List DataSampleHeader.GUID) :
    (decoded old h entries).marshaledSize = (wireBytes host h entries).length := by
  rw [wireBytes_length]
  unfold decoded
  split <;> rfl

theorem wireBytes_pos (host : ByteOrder) (h : DataSampleHeader.Header)
    (entries : List DataSampleHeader.GUID) :
    40 ≤ (wireBytes host h entries).length := by
  rw [wireBytes_length, values_size]
  omega

theorem samplesBytes_eq_nil (h : (samplesBytes host ss).length = 0) : ss = [] := by
  cases ss with
  | nil => rfl
  | cons s ss =>
    have hpos := wireBytes_pos host s.header s.entries
    rw [samplesBytes_cons, List.length_append] at h
    omega

theorem blocks_spec {low : Nat} {ring : List (Buffer UInt8)} (h : Linked low ring) :
    ∃ mb, blocks ring = some mb ∧ contents mb = unread ring := by
  obtain ⟨buffers, heq, hunread⟩ := h.chain
  refine ⟨buffers.map fun b => ⟨0, b.items⟩, by simp [blocks, heq], ?_⟩
  rw [← hunread]
  simp [contents, unread, List.flatMap_map]

theorem skipBadPdus_good (h : r.goodPdu = true) : skipBadPdus r = .ok (.continues r) := by
  simp [skipBadPdus, h]

section

theorem manageTransportHeader_inside (hpdu : r.pduRemaining ≠ 0) (hgood : r.goodPdu = true) :
    manageTransportHeader host r = .ok (.continues r) := by
  rw [manageTransportHeader, if_neg hpdu, skipBadPdus_good hgood]

theorem manageTransportHeader_short (hlinked : Linked bufferLowWater r.ring)
    (hpdu : r.pduRemaining = 0)
    (hshort : (unread r.ring).length < TransportHeader.maxMarshaledSize) :
    manageTransportHeader host r = .ok (.returns r) := by
  obtain ⟨mb, heq, hcontents⟩ := blocks_spec hlinked
  rw [manageTransportHeader, if_pos hpdu, heq]
  simp only [hcontents, hshort, if_true]

theorem manageTransportHeader_read (hlinked : Linked bufferLowWater r.ring)
    (hpdu : r.pduRemaining = 0) {h : TransportHeader.Header} (hvalid : h.valid = true)
    (hunread : unread r.ring = transportBytes host h ++ more) :
    manageTransportHeader host r = .ok (.continues { r with
      ring := advance TransportHeader.maxMarshaledSize r.ring
      transportHeader := h
      goodPdu := true
      pduRemaining := h.length.toNat }) := by
  obtain ⟨mb, heq, hcontents⟩ := blocks_spec hlinked
  obtain ⟨reader, hinit, hmore⟩ := transportInit_ok host r.transportHeader h mb more
    (hcontents.trans hunread)
  have hlength := transportBytes_length host h
  have henough : ¬ (contents mb).length < TransportHeader.maxMarshaledSize := by
    rw [hcontents, hunread, List.length_append]
    omega
  have htaken : (contents mb).length - (contents reader.current).length =
      TransportHeader.maxMarshaledSize := by
    rw [hcontents, hunread, hmore, List.length_append]
    omega
  rw [manageTransportHeader, if_pos hpdu, heq]
  simp only [henough, if_false, hinit, hvalid, if_true, htaken]
  exact skipBadPdus_good rfl

theorem isPartial_stream {chain : List (Block UInt8)} {s : Sample} (hs : s.WellFormed)
    (hstream : contents chain ++ future = wireBytes host s.header s.entries ++ more) :
    DataSampleHeader.isPartial host chain =
      decide ((contents chain).length < (wireBytes host s.header s.entries).length) := by
  apply isPartial_eq host hs.messageId hs.submessageId hs.entries
  intro n hn hn'
  have htake := congrArg (List.take n) hstream
  rwa [List.take_append_of_le_length hn, List.take_append_of_le_length hn'] at htake

theorem manageSampleHeader_inside (hsample : r.receiveSampleRemaining ≠ 0) :
    manageSampleHeader host r = .ok (.continues r) := by
  rw [manageSampleHeader, if_neg hsample]

theorem manageSampleHeader_short (hlinked : Linked bufferLowWater r.ring)
    (hsample : r.receiveSampleRemaining = 0) {s : Sample} (hs : s.WellFormed)
    (hstream : unread r.ring ++ future = wireBytes host s.header s.entries ++ more)
    (hshort : (unread r.ring).length < (wireBytes host s.header s.entries).length) :
    manageSampleHeader host r = .ok (.returns r) := by
  obtain ⟨mb, heq, hcontents⟩ := blocks_spec hlinked
  rw [← hcontents] at hstream hshort
  rw [manageSampleHeader, if_pos hsample, heq]
  simp only [isPartial_stream hs hstream, hshort, decide_true, if_true]

def afterSampleHeader (host : ByteOrder) (r : Receiving) (s : Sample) : Receiving :=
  { r with
    ring := advance (wireBytes host s.header s.entries).length r.ring
    log := { r.log with header := decoded r.log.header s.header s.entries }
    goodPdu := true
    receiveSampleRemaining := s.payload.length
    pduRemaining := sizeSub r.pduRemaining (wireBytes host s.header s.entries).length }

theorem manageSampleHeader_read (hlinked : Linked bufferLowWater r.ring)
    (hsample : r.receiveSampleRemaining = 0) {s : Sample} (hs : s.WellFormed)
    (hunread : unread r.ring = wireBytes host s.header s.entries ++ more) :
    manageSampleHeader host r = .ok (.continues (afterSampleHeader host r s)) := by
  obtain ⟨mb, heq, hcontents⟩ := blocks_spec hlinked
  have hstream : contents mb ++ [] = wireBytes host s.header s.entries ++ more := by
    rw [List.append_nil, hcontents, hunread]
  obtain ⟨reader, hinit, -, hmore⟩ := init_ok host r.log.header s.header s.entries hs.entries mb
    more (hcontents.trans hunread)
  have henough : ¬ (contents mb).length < (wireBytes host s.header s.entries).length := by
    rw [hcontents, hunread, List.length_append]
    omega
  have htaken : (contents mb).length - (contents reader.current).length =
      (wireBytes host s.header s.entries).length := by
    rw [hcontents, hunread, hmore, List.length_append]
    omega
  rw [manageSampleHeader, if_pos hsample, heq]
  simp only [isPartial_stream hs hstream, henough, decide_false, Bool.false_eq_true, if_false,
    hinit, htaken, decoded_messageLength, decoded_marshaledSize host, hs.length]
  exact skipBadPdus_good rfl

end

/-- Where a strategy is in the stream that is still to be used: `rest` of a payload, the
samples `ss` of the same packet and the packets `ps`. -/
structure Stands (host : ByteOrder) (p : Parser) (rest : List UInt8) (ss : List Sample)
    (ps : List Packet) (stream : List UInt8) : Prop where
  samples : ∀ s ∈ ss, s.WellFormed
  packets : ∀ q ∈ ps, q.WellFormed host
  good : p.goodPdu = true
  sample : p.receiveSampleRemaining = rest.length
  pdu : p.pduRemaining = rest.length + (samplesBytes host ss).length
  stream : stream = rest ++ (samplesBytes host ss ++ packetsBytes host ps)

/-- The log at the end of the stream, seen from between two samples. -/
def Between (reassemble : Reassemble) (p : Parser) (ss : List Sample) (ps : List Packet)
    (final : Log) : Prop :=
  p.payload = [] ∧
    final = packetsLog reassemble ps (samplesLog reassemble p.transportHeader ss p.log)

def Within (reassemble : Reassemble) (p : Parser) (rest : List UInt8) (ss : List Sample)
    (ps : List Packet) (final : Log) : Prop :=
  final = packetsLog reassemble ps
    (samplesLog reassemble { p.transportHeader with lastFragment := false } ss
      (p.log.accept reassemble p.transportHeader (p.payload ++ rest)))

/-- What is left of the stream leads to the log `final`. -/
def Expects (host : ByteOrder) (reassemble : Reassemble) (p : Parser) (stream : List UInt8)
    (final : Log) : Prop :=
  ∃ rest ss ps, Stands host p rest ss ps stream ∧
    if rest = [] then Between reassemble p ss ps final
    else Within reassemble p rest ss ps final

theorem Expects.done {p : Parser} (h : Expects host reassemble p [] final) : p.log = final := by
  obtain ⟨rest, ss, ps, hstands, hfinal⟩ := h
  have hstream := hstands.stream
  rw [eq_comm, List.append_eq_nil_iff, List.append_eq_nil_iff] at hstream
  obtain ⟨rfl, hss, hps⟩ := hstream
  obtain rfl : ss = [] := samplesBytes_eq_nil (by rw [hss]; rfl)
  obtain rfl : ps = [] := by
    cases ps with
    | nil => rfl
    | cons q ps =>
      have hlength := congrArg List.length hps
      rw [packetsBytes_cons, List.length_append, transportBytes_length] at hlength
      simp [TransportHeader.maxMarshaledSize] at hlength
  exact hfinal.2.symm

theorem takePayload_spec {b : Buffer UInt8} {bs : List (Buffer UInt8)} (hring : r.ring = b :: bs)
    (hsound : Sound bufferLowWater r.ring)
    (hstands : Stands host r.toParser rest ss ps (unread r.ring ++ future))
    (hwithin : Within reassemble r.toParser rest ss ps final) :
    ∃ amount, amount = min rest.length b.items.length ∧
      Sound bufferLowWater (takePayload r).ring ∧
      unread (takePayload r).ring = (unread r.ring).drop amount ∧
      Stands host (takePayload r).toParser (rest.drop amount) ss ps
        (unread (takePayload r).ring ++ future) ∧
      Within reassemble (takePayload r).toParser (rest.drop amount) ss ps final := by
  have hamount : min r.receiveSampleRemaining b.items.length = min rest.length b.items.length := by
    rw [hstands.sample]
  have htake : takePayload r = { r with
      payload := r.payload ++ b.items.take (min rest.length b.items.length)
      ring := advance (min rest.length b.items.length) r.ring
      receiveSampleRemaining := r.receiveSampleRemaining - min rest.length b.items.length
      pduRemaining := sizeSub r.pduRemaining (min rest.length b.items.length) } := by
    unfold takePayload
    rw [hring]
    simp only [hamount]
  obtain ⟨amount, heq⟩ : ∃ n, n = min rest.length b.items.length := ⟨_, rfl⟩
  rw [← heq] at htake
  have hle : amount ≤ rest.length := by omega
  have hle' : amount ≤ b.items.length := by omega
  have hstream := hstands.stream
  have hunread : unread r.ring = b.items ++ unread bs := by rw [hring, unread_cons]
  have hbytes : b.items.take amount = rest.take amount := by
    have hboth := congrArg (List.take amount) hstream
    rwa [hunread, List.append_assoc, List.take_append_of_le_length hle',
      List.take_append_of_le_length hle] at hboth
  have hpdu := hstands.pdu
  refine ⟨amount, heq, ?_, ?_, ?_, ?_⟩
  · rw [htake]
    exact hsound.advance _
  · rw [htake]
    exact unread_advance _ _
  · rw [htake]
    constructor
    · exact hstands.samples
    · exact hstands.packets
    · exact hstands.good
    · rw [hstands.sample, List.length_drop]
    · show sizeSub r.pduRemaining amount = _
      rw [sizeSub, if_pos (by omega), List.length_drop]
      omega
    · have hlong : amount ≤ (unread r.ring).length := by
        rw [hunread, List.length_append]
        omega
      rw [unread_advance, ← List.drop_append_of_le_length hlong, hstream,
        List.drop_append_of_le_length hle]
  · rw [htake, Within]
    rw [hbytes, List.append_assoc, List.take_append_drop]
    exact hwithin

theorem dispatch_spec (hstands : Stands host r.toParser [] ss ps (unread r.ring ++ future))
    (hwithin : Within reassemble r.toParser [] ss ps final) :
    Expects host reassemble (dispatch reassemble r).toParser
      (unread (dispatch reassemble r).ring ++ future) final := by
  refine ⟨[], ss, ps, ?_, ?_⟩
  · constructor
    · exact hstands.samples
    · exact hstands.packets
    · exact hstands.good
    · exact hstands.sample
    · exact hstands.pdu
    · exact hstands.stream
  · refine ⟨rfl, ?_⟩
    rw [Within, List.append_nil] at hwithin
    exact hwithin

theorem updateBufferIndex_empty (h : unread r.ring = []) : updateBufferIndex r = (true, r) := by
  rw [updateBufferIndex, seek_eq_none h]

theorem updateBufferIndex_spec (hsound : Sound bufferLowWater r.ring) (hne : unread r.ring ≠ []) :
    ∃ b rest, updateBufferIndex r = (false, { r with ring := b :: rest }) ∧ b.items ≠ [] ∧
      Sound bufferLowWater (b :: rest) ∧ unread (b :: rest) = unread r.ring := by
  have hsound' : Sound bufferLowWater (r.ring ++ []) := by rwa [List.append_nil]
  obtain ⟨b, rest, heq, hb, hrest⟩ := seek_spec (by decide) hsound' (by simp) hne
  exact ⟨b, rest, by rw [updateBufferIndex, heq], hb, hrest⟩

abbrev Finishes (host : ByteOrder) (reassemble : Reassemble) (future : List UInt8) (final : Log)
    (result : Except Failure Receiving) : Prop :=
  ∃ r', result = .ok r' ∧ Sound bufferLowWater r'.ring ∧
    Expects host reassemble r'.toParser (unread r'.ring ++ future) final ∧
    (future = [] → unread r'.ring = [])

/-- The payload and the dispatch, from the current buffer. -/
def consumeSample (reassemble : Reassemble) (r : Receiving) : Receiving :=
  let r := if r.receiveSampleRemaining > 0 then takePayload r else r
  if r.receiveSampleRemaining = 0 then dispatch reassemble r else r

section

variable (hsound : Sound bufferLowWater r.ring)
  (hstands : Stands host r.toParser rest ss ps (unread r.ring ++ future))
  (hwithin : Within reassemble r.toParser rest ss ps final)
include hsound hstands hwithin

theorem consumeSample_spec : Sound bufferLowWater (consumeSample reassemble r).ring ∧
      Expects host reassemble (consumeSample reassemble r).toParser
        (unread (consumeSample reassemble r).ring ++ future) final ∧
      (unread (consumeSample reassemble r).ring).length ≤ (unread r.ring).length ∧
      (rest ≠ [] → ∀ b ∈ r.ring.head?, b.items ≠ [] →
        (unread (consumeSample reassemble r).ring).length < (unread r.ring).length) := by
  have hsample := hstands.sample
  by_cases hrest : rest = []
  · subst hrest
    have hzero : r.receiveSampleRemaining = 0 := hsample
    have hconsume : consumeSample reassemble r = dispatch reassemble r := by
      simp [consumeSample, hzero]
    rw [hconsume]
    exact ⟨hsound, dispatch_spec hstands hwithin, Nat.le_refl _, fun hne => absurd rfl hne⟩
  · have hpos : r.receiveSampleRemaining > 0 := by
      rw [hsample]
      exact List.length_pos_iff.mpr hrest
    obtain ⟨b, bs, hring⟩ : ∃ b bs, r.ring = b :: bs := by
      cases hr : r.ring with
      | nil =>
        have hlinked := hsound.linked
        rw [hr] at hlinked
        exact hlinked.elim
      | cons b bs => exact ⟨b, bs, rfl⟩
    obtain ⟨amount, hamount, hsound', hunread, hstands', hwithin'⟩ :=
      takePayload_spec hring hsound hstands hwithin
    have hless : b.items ≠ [] → (unread (takePayload r).ring).length < (unread r.ring).length := by
      intro hb
      have hb' := List.length_pos_iff.mpr hb
      rw [hunread, List.length_drop, hring, unread_cons, List.length_append]
      omega
    have hlonger : (unread (takePayload r).ring).length ≤ (unread r.ring).length := by
      rw [hunread, List.length_drop]
      omega
    have hsample' := hstands'.sample
    by_cases hdone : rest.drop amount = []
    · rw [hdone] at hstands' hwithin' hsample'
      have hzero : (takePayload r).receiveSampleRemaining = 0 := hsample'
      have hconsume : consumeSample reassemble r = dispatch reassemble (takePayload r) := by
        simp [consumeSample, hpos, hzero]
      rw [hconsume]
      refine ⟨hsound', dispatch_spec hstands' hwithin', hlonger, ?_⟩
      intro _ c hc hitems
      rw [hring] at hc
      obtain rfl : b = c := by simpa using hc
      exact hless hitems
    · have hmore : (takePayload r).receiveSampleRemaining ≠ 0 := by
        rw [hsample']
        exact fun hlength => hdone (List.length_eq_zero_iff.mp hlength)
      have hconsume : consumeSample reassemble r = takePayload r := by
        simp [consumeSample, hpos, hmore]
      rw [hconsume]
      refine ⟨hsound', ⟨_, ss, ps, hstands', ?_⟩, hlonger, ?_⟩
      · rw [if_neg hdone]
        exact hwithin'
      · intro _ c hc hitems
        rw [hring] at hc
        obtain rfl : b = c := by simpa using hc
        exact hless hitems

/-- Behind a sample header the loop returns with all bytes used, or goes on with some. -/
theorem manageSample_spec : ∃ r', Sound bufferLowWater r'.ring ∧
      Expects host reassemble r'.toParser (unread r'.ring ++ future) final ∧
      (manageSample reassemble r = .returns r' ∧ unread r'.ring = [] ∨
        manageSample reassemble r = .continues r' ∧
          (unread r'.ring).length ≤ (unread r.ring).length ∧
          (rest ≠ [] → (unread r'.ring).length < (unread r.ring).length)) := by
  by_cases hempty : unread r.ring = []
  · obtain ⟨hsound', hexpects, hlength, -⟩ := consumeSample_spec hsound hstands hwithin
    have hnone : unread (consumeSample reassemble r).ring = [] := by
      rw [hempty] at hlength
      exact List.length_eq_zero_iff.mp (Nat.le_zero.mp hlength)
    refine ⟨consumeSample reassemble r, hsound', hexpects, .inl ⟨?_, hnone⟩⟩
    have hlast := updateBufferIndex_empty hnone
    unfold manageSample
    rw [updateBufferIndex_empty hempty]
    unfold consumeSample at hlast ⊢
    simp only [hlast]
  · obtain ⟨b, bs, hupdate, hb, hsound₁, hunread⟩ := updateBufferIndex_spec hsound hempty
    rw [← hunread] at hstands
    obtain ⟨hsound₂, hexpects, hlength, hless⟩ :=
      consumeSample_spec (r := { r with ring := b :: bs }) hsound₁ hstands hwithin
    have hmanage : ∀ last r',
        updateBufferIndex (consumeSample reassemble { r with ring := b :: bs }) = (last, r') →
        manageSample reassemble r = if last then .returns r' else .continues r' := by
      intro last r' hlast
      unfold consumeSample at hlast
      unfold manageSample
      rw [hupdate]
      simp only [hlast]
      cases last <;> rfl
    generalize consumeSample reassemble { r with ring := b :: bs } = r₂ at *
    simp only [hunread] at hlength hless
    by_cases hnone : unread r₂.ring = []
    · exact ⟨r₂, hsound₂, hexpects, .inl ⟨hmanage true r₂ (updateBufferIndex_empty hnone), hnone⟩⟩
    · obtain ⟨c, cs, hupdate', -, hsound₃, hunread'⟩ := updateBufferIndex_spec hsound₂ hnone
      refine ⟨{ r₂ with ring := c :: cs }, hsound₃, ?_, .inr ⟨hmanage false _ hupdate', ?_, ?_⟩⟩
      · rw [hunread']
        exact hexpects
      · rw [hunread']
        exact hlength
      · intro hrest
        rw [hunread']
        exact hless hrest b rfl hb

theorem manageSample_process {fuel : Nat}
    (ih : ∀ {r : Receiving}, Sound bufferLowWater r.ring →
      Expects host reassemble r.toParser (unread r.ring ++ future) final →
      (unread r.ring).length + 1 ≤ fuel →
      Finishes host reassemble future final (process host reassemble fuel true r))
    (hlength : (unread r.ring).length + (if rest = [] then 1 else 0) ≤ fuel) :
    Finishes host reassemble future final (match manageSample reassemble r with
      | .returns r => .ok r
      | .continues r => process host reassemble fuel true r) := by
  obtain ⟨r', hsound', hexpects', ⟨hreturns, hnone⟩ | ⟨hcontinues, hle, hlt⟩⟩ :=
    manageSample_spec hsound hstands hwithin
  · rw [hreturns]
    exact ⟨r', rfl, hsound', hexpects', fun _ => hnone⟩
  · rw [hcontinues]
    apply ih hsound' hexpects'
    by_cases hrest : rest = []
    · rw [if_pos hrest] at hlength
      omega
    · have := hlt hrest
      omega

end

theorem afterSampleHeader_spec {s : Sample}
    (hstands : Stands host r.toParser [] (s :: ss) ps (unread r.ring ++ future))
    (hbetween : Between reassemble r.toParser (s :: ss) ps final)
    (henough : (wireBytes host s.header s.entries).length ≤ (unread r.ring).length) :
    Stands host (afterSampleHeader host r s).toParser s.payload ss ps
        (unread (afterSampleHeader host r s).ring ++ future) ∧
      Within reassemble (afterSampleHeader host r s).toParser s.payload ss ps final := by
  have hpdu := hstands.pdu
  rw [samplesBytes_cons, List.length_append, List.length_append, List.length_nil] at hpdu
  have hstream := hstands.stream
  rw [List.nil_append, samplesBytes_cons, List.append_assoc, List.append_assoc] at hstream
  constructor
  · constructor
    · exact fun s' hs' => hstands.samples s' (List.mem_cons_of_mem _ hs')
    · exact hstands.packets
    · rfl
    · rfl
    · show sizeSub r.pduRemaining _ = _
      rw [sizeSub, if_pos (by omega)]
      omega
    · show unread (advance _ r.ring) ++ future = _
      rw [unread_advance, ← List.drop_append_of_le_length henough, hstream, List.drop_left]
  · obtain ⟨hpayload, hfinal⟩ := hbetween
    show final = packetsLog reassemble ps (samplesLog reassemble
      { r.transportHeader with lastFragment := false } ss (Log.accept reassemble r.transportHeader
        (r.payload ++ s.payload) { r.log with header := decoded r.log.header s.header s.entries }))
    rw [hpayload, List.nil_append]
    exact hfinal

theorem process_spec (fuel : Nat) (inside : Bool) (hsound : Sound bufferLowWater r.ring)
    (hexpects : Expects host reassemble r.toParser (unread r.ring ++ future) final)
    (hfuel : (unread r.ring).length + (if inside then 1 else 2) ≤ fuel) :
    Finishes host reassemble future final (process host reassemble fuel inside r) := by
  induction fuel generalizing r inside with
  | zero => split at hfuel <;> omega
  | succ fuel ih =>
    have hless : (unread r.ring).length ≤ fuel := by split at hfuel <;> omega
    obtain ⟨rest, ss, ps, hstands, hfinal⟩ := hexpects
    have hpdu := hstands.pdu
    unfold process
    by_cases hinside : inside = true ∧ r.pduRemaining > 0
    · rw [if_pos hinside]
      by_cases hrest : rest = []
      · subst hrest
        cases ss with
        | nil =>
          have hzero : r.pduRemaining = 0 := hpdu
          omega
        | cons s ss =>
          have hs := hstands.samples s List.mem_cons_self
          have hstream := hstands.stream
          rw [List.nil_append, samplesBytes_cons, List.append_assoc] at hstream
          by_cases hshort : (unread r.ring).length < (wireBytes host s.header s.entries).length
          · rw [manageSampleHeader_short hsound.linked hstands.sample hs hstream hshort]
            refine ⟨r, rfl, hsound, ⟨[], s :: ss, ps, hstands, by rwa [if_pos rfl]⟩, ?_⟩
            rintro rfl
            have hlength := congrArg List.length hstream
            rw [List.append_nil, List.length_append] at hlength
            omega
          · have henough : (wireBytes host s.header s.entries).length ≤ (unread r.ring).length :=
              Nat.le_of_not_lt hshort
            have hbegins : unread r.ring = wireBytes host s.header s.entries ++
                (unread r.ring).drop (wireBytes host s.header s.entries).length := by
              have htake := congrArg (List.take (wireBytes host s.header s.entries).length) hstream
              rw [List.take_append_of_le_length henough, List.take_left] at htake
              conv_lhs => rw [← List.take_append_drop
                (wireBytes host s.header s.entries).length (unread r.ring), htake]
            rw [manageSampleHeader_read hsound.linked hstands.sample hs hbegins]
            obtain ⟨hstands₁, hwithin₁⟩ := afterSampleHeader_spec hstands hfinal henough
            apply manageSample_process (hsound.advance _) hstands₁ hwithin₁ (ih true)
            have hpos := wireBytes_pos host s.header s.entries
            show (unread (advance _ r.ring)).length + _ ≤ fuel
            rw [unread_advance, List.length_drop]
            split <;> omega
      · rw [if_neg hrest] at hfinal
        have hsome : r.receiveSampleRemaining ≠ 0 := by
          rw [hstands.sample]
          exact fun hlength => hrest (List.length_eq_zero_iff.mp hlength)
        rw [manageSampleHeader_inside hsome]
        apply manageSample_process hsound hstands hfinal (ih true)
        rw [if_neg hrest]
        exact hless
    · rw [if_neg hinside]
      by_cases hzero : r.pduRemaining = 0
      · rw [hzero, eq_comm, Nat.add_eq_zero_iff] at hpdu
        obtain rfl : rest = [] := List.length_eq_zero_iff.mp hpdu.1
        obtain rfl : ss = [] := samplesBytes_eq_nil hpdu.2
        have hstream := hstands.stream
        by_cases hshort : (unread r.ring).length < TransportHeader.maxMarshaledSize
        · rw [manageTransportHeader_short hsound.linked hzero hshort]
          refine ⟨r, rfl, hsound, ⟨[], [], ps, hstands, by rwa [if_pos rfl]⟩, ?_⟩
          rintro rfl
          cases ps with
          | nil => simpa [samplesBytes, packetsBytes] using hstream
          | cons q ps =>
            have hlength := congrArg List.length hstream
            rw [List.append_nil, packetsBytes_cons] at hlength
            simp only [List.nil_append, samplesBytes, List.flatMap_nil, List.length_append,
              transportBytes_length] at hlength
            omega
        · cases ps with
          | nil =>
            exfalso
            have hlength := congrArg List.length hstream
            simp [samplesBytes, packetsBytes] at hlength
            rw [hlength.1] at hshort
            exact hshort (by decide)
          | cons q ps =>
            have hq := hstands.packets q List.mem_cons_self
            have henough : (transportBytes host q.header).length ≤ (unread r.ring).length := by
              rw [transportBytes_length]
              exact Nat.le_of_not_lt hshort
            have hstream' : unread r.ring ++ future = transportBytes host q.header ++
                (samplesBytes host q.samples ++ packetsBytes host ps) := by
              rw [hstream, packetsBytes_cons]
              rfl
            have hbegins : unread r.ring = transportBytes host q.header ++
                (unread r.ring).drop (transportBytes host q.header).length := by
              have htake := congrArg (List.take (transportBytes host q.header).length) hstream'
              rw [List.take_append_of_le_length henough, List.take_left] at htake
              conv_lhs => rw [← List.take_append_drop
                (transportBytes host q.header).length (unread r.ring), htake]
            rw [manageTransportHeader_read hsound.linked hzero hq.valid hbegins]
            apply ih true (hsound.advance _)
            · refine ⟨[], q.samples, ps, ?_, ?_⟩
              · constructor
                · exact hq.samples
                · exact fun q' hq' => hstands.packets q' (List.mem_cons_of_mem _ hq')
                · rfl
                · exact hstands.sample
                · rw [hq.length, List.length_nil, Nat.zero_add]
                · rw [transportBytes_length] at henough
                  rw [unread_advance, ← List.drop_append_of_le_length henough, hstream',
                    ← transportBytes_length host q.header, List.drop_left]
                  rfl
              · exact ⟨hfinal.1, hfinal.2⟩
            · rw [unread_advance, List.length_drop]
              simp only [if_true, TransportHeader.maxMarshaledSize] at hshort ⊢
              omega
      · rw [manageTransportHeader_inside hzero hstands.good]
        have hout : inside = false := by
          by_contra hin
          exact hinside ⟨by simpa using hin, Nat.pos_of_ne_zero hzero⟩
        apply ih true hsound ⟨rest, ss, ps, hstands, hfinal⟩
        rw [hout] at hfuel
        simp only [Bool.false_eq_true, if_false, if_true] at hfuel ⊢
        omega

theorem Expects.withHeader {p : Parser} {stream : List UInt8}
    (h : Expects host reassemble p stream final) (hpdu : p.pduRemaining = 0)
    (header : TransportHeader.Header) :
    Expects host reassemble { p with transportHeader := header } stream final := by
  obtain ⟨rest, ss, ps, hstands, hfinal⟩ := h
  have hzero := hstands.pdu
  rw [hpdu, eq_comm, Nat.add_eq_zero_iff] at hzero
  obtain rfl : rest = [] := List.length_eq_zero_iff.mp hzero.1
  obtain rfl : ss = [] := samplesBytes_eq_nil hzero.2
  refine ⟨[], [], ps, ?_, ?_⟩
  · constructor
    · exact hstands.samples
    · exact hstands.packets
    · exact hstands.good
    · exact hstands.sample
    · exact hstands.pdu
    · exact hstands.stream
  · exact hfinal

/-- A strategy between two calls, when `stream` is still to be received. -/
structure Awaits (host : ByteOrder) (reassemble : Reassemble) (s : Strategy)
    (stream : List UInt8) (final : Log) : Prop where
  resting : Resting bufferLowWater s.buffers
  expects : Expects host reassemble s.toParser (unreadSlots s.buffers ++ stream) final
  used : stream = [] → unreadSlots s.buffers = []

theorem Awaits.done {s : Strategy} {stream : List UInt8} {final : Log}
    (h : Awaits host reassemble s stream final) (hstream : stream = []) : s.log = final := by
  have hexpects := h.expects
  rw [h.used hstream, hstream] at hexpects
  exact hexpects.done

theorem Resting.slots_ne_nil {slots : List (Option (Buffer UInt8))}
    (h : Resting bufferLowWater slots) : slots ≠ [] := by
  cases h with
  | unused n pos =>
    intro hnil
    have hlength := congrArg List.length hnil
    rw [List.length_replicate] at hlength
    exact absurd hlength (Nat.ne_of_gt pos)
  | used ring sound =>
    intro hnil
    have hlinked := sound.linked
    rw [List.map_eq_nil_iff.mp hnil] at hlinked
    exact hlinked

theorem prepareBuffers_spec {slots : List (Option (Buffer UInt8))} {bytes : List UInt8}
    (h : Resting bufferLowWater slots) (hready : Ready slots)
    (hspace : bytes.length ≤ spaces (prepareBuffers slots)) :
    Sound bufferLowWater (fill bytes (prepareBuffers slots)) ∧
      unread (fill bytes (prepareBuffers slots)) = unreadSlots slots ++ bytes := by
  have hrenewed : Renewed slots (prepareBuffers slots) :=
    h.renew (by decide) (by decide) (Resting.slots_ne_nil h) hready
  have hpacked : Packed (fill bytes (prepareBuffers slots)) :=
    hrenewed.packed.fill hrenewed.roomy
  constructor
  · exact ⟨hpacked.filled, hpacked.solid.dropWhile, hrenewed.chained.fill.linked⟩
  · rw [unread_fill hrenewed.packed.filled hspace, hrenewed.unread]

theorem handleDdsInput_spec {s : Strategy} {bytes : List UInt8}
    (h : Awaits host reassemble s (bytes ++ future) final) (hready : Ready s.buffers)
    (hbytes : bytes ≠ []) (hspace : bytes.length ≤ spaces (prepareBuffers s.buffers)) :
    ∃ s', handleDdsInput host reassemble s bytes = .ok s' ∧
      Awaits host reassemble s' future final := by
  obtain ⟨hsound, hunread⟩ := prepareBuffers_spec h.resting hready hspace
  have hexpects := h.expects
  rw [← List.append_assoc, ← hunread] at hexpects
  unfold handleDdsInput
  simp only [hbytes, if_false, Nat.not_lt.mpr hspace]
  obtain ⟨header, hheader, hexpects'⟩ : ∃ header,
      (if s.pduRemaining = 0 then
        { s.transportHeader with length := BitVec.ofNat 32 bytes.length }
      else s.transportHeader) = header ∧
      Expects host reassemble { s.toParser with transportHeader := header }
        (unread (fill bytes (prepareBuffers s.buffers)) ++ future) final := by
    by_cases hpdu : s.pduRemaining = 0
    · exact ⟨_, if_pos hpdu, hexpects.withHeader hpdu _⟩
    · exact ⟨_, if_neg hpdu, hexpects⟩
  rw [hheader]
  obtain ⟨r, hprocess, hsound', hexpects'', hdone⟩ := process_spec
    (r := ⟨⟨header, s.log, s.payload, s.receiveSampleRemaining, s.pduRemaining, s.goodPdu⟩,
      fill bytes (prepareBuffers s.buffers)⟩)
    ((unread (fill bytes (prepareBuffers s.buffers))).length + 2) false hsound hexpects'
    (Nat.le_refl _)
  refine ⟨{ r with buffers := r.ring.map some }, ?_, ?_⟩
  · rw [hprocess]
  · constructor
    · exact .used r.ring hsound'
    · rw [unreadSlots_some]
      exact hexpects''
    · rw [unreadSlots_some]
      exact hdone

end OpenDDS.Guarantees.PacketParsing
