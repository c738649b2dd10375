import OpenDDS.Guarantees.PacketParsing

/-!
# Independence of the pieces of a stream

The samples that are delivered do not depend on how the stream comes in pieces, as long as
no call starts with a used-up current buffer while a later one has bytes. A call that
stops at an incomplete sample header can leave such a buffer behind, for the header may
start in the buffer after the current one; the current one is then replaced, and the next
bytes are received in front of the header.
-/
namespace OpenDDS.Guarantees.ReceiveChunking

open Library Library.BufferRing Source Source.ReceiveStrategy PacketParsing
open HeaderFormat (wireBytes decoded)

variable {host : ByteOrder} {reassemble : Reassemble}

/-- A call in which `receive_bytes` reads the next piece of the stream. -/
structure Receives (host : ByteOrder) (reassemble : Reassemble) (s : Strategy)
    (piece : List UInt8) (s' : Strategy) : Prop where
  some : piece ≠ []
  fits : piece.length ≤ spaces (prepareBuffers s.buffers)
  returns : handleDdsInput host reassemble s piece = .ok s'

/-- A call that starts with bytes in the current buffer, if any buffer has bytes. -/
def ReceivesReady (host : ByteOrder) (reassemble : Reassemble) (s : Strategy)
    (piece : List UInt8) (s' : Strategy) : Prop :=
  Receives host reassemble s piece s' ∧ BufferRing.Ready s.buffers

theorem create_awaits (host : ByteOrder) (reassemble : Reassemble) {ps : List Packet}
    (hps : ∀ p ∈ ps, p.WellFormed host) :
    Awaits host reassemble (create host) (packetsBytes host ps)
      (packetsLog reassemble ps (create host).log) where
  resting := .unused receiveBuffers (by decide)
  expects := by
    refine ⟨[], [], ps, ?_, ?_⟩
    · constructor
      · intro s hs
        cases hs
      · exact hps
      · rfl
      · rfl
      · rfl
      · rfl
    · exact ⟨rfl, rfl⟩
  used _ := rfl

/-- However much of the stream came in, the strategy awaits the rest. -/
theorem run_awaits {ps : List Packet} (hps : ∀ p ∈ ps, p.WellFormed host)
    {pieces : List (List UInt8)} {s : Strategy}
    (run : Run (create host) (ReceivesReady host reassemble) pieces s) :
    ∀ stream, pieces.flatten ++ stream = packetsBytes host ps →
      Awaits host reassemble s stream (packetsLog reassemble ps (create host).log) := by
  apply run.history fun pieces s => ∀ stream, pieces.flatten ++ stream = packetsBytes host ps →
    Awaits host reassemble s stream (packetsLog reassemble ps (create host).log)
  · intro stream hstream
    obtain rfl : stream = packetsBytes host ps := hstream
    exact create_awaits host reassemble hps
  · intro pieces s piece after hawaits ⟨hreceives, hready⟩ stream hstream
    rw [List.flatten_append, List.flatten_singleton, List.append_assoc] at hstream
    obtain ⟨s', hs', hawaits'⟩ := handleDdsInput_spec (hawaits _ hstream) hready hreceives.some
      hreceives.fits
    obtain rfl : after = s' := by
      rw [hreceives.returns] at hs'
      exact Except.ok.inj hs'
    exact hawaits'

/-- Every call with the next piece has a result, and a stream that came in whole is
delivered as the same samples, whichever way it came. -/
theorem chunking_independent (host : ByteOrder) (reassemble : Reassemble) (ps : List Packet)
    (hps : ∀ p ∈ ps, p.WellFormed host) :
    (∀ pieces s piece rest, Run (create host) (ReceivesReady host reassemble) pieces s →
      pieces.flatten ++ (piece ++ rest) = packetsBytes host ps → piece ≠ [] →
      piece.length ≤ spaces (prepareBuffers s.buffers) → BufferRing.Ready s.buffers →
      ∃ s', ReceivesReady host reassemble s piece s') ∧
    ∀ pieces pieces' s s', Run (create host) (ReceivesReady host reassemble) pieces s →
      Run (create host) (ReceivesReady host reassemble) pieces' s' →
      pieces.flatten = packetsBytes host ps → pieces'.flatten = packetsBytes host ps →
      s.log.delivered = s'.log.delivered := by
  constructor
  · intro pieces s piece rest run hstream hsome hfits hready
    obtain ⟨s', hs', -⟩ := handleDdsInput_spec (run_awaits hps run _ hstream) hready hsome hfits
    exact ⟨s', ⟨hsome, hfits, hs'⟩, hready⟩
  · intro pieces pieces' s s' run run' hwhole hwhole'
    have hlog := (run_awaits hps run [] (by rw [List.append_nil, hwhole])).done rfl
    have hlog' := (run_awaits hps run' [] (by rw [List.append_nil, hwhole'])).done rfl
    rw [hlog, hlog']

section

instance (slots : List (Option (Buffer UInt8))) : Decidable (BufferRing.Ready slots) :=
  inferInstanceAs (Decidable (∀ slot ∈ slots.head?,
    (slot.map Buffer.items).getD [] = [] → unreadSlots slots = []))

/-- The strategy after it received the pieces, if each call meets the condition. -/
def receiveAll (host : ByteOrder) (reassemble : Reassemble) (s : Strategy) :
    List (List UInt8) → Option Strategy
  | [] => some s
  | piece :: pieces =>
    if piece ≠ [] ∧ piece.length ≤ spaces (prepareBuffers s.buffers) ∧
        BufferRing.Ready s.buffers then
      (handleDdsInput host reassemble s piece).toOption.bind fun s =>
        receiveAll host reassemble s pieces
    else none

theorem run_receiveAll {pieces received : List (List UInt8)} {s s' : Strategy}
    (run : Run (create host) (ReceivesReady host reassemble) received s)
    (h : receiveAll host reassemble s pieces = some s') :
    Run (create host) (ReceivesReady host reassemble) (received ++ pieces) s' := by
  induction pieces generalizing s received with
  | nil =>
    rw [List.append_nil]
    cases h
    exact run
  | cons piece pieces ih =>
    rw [receiveAll, Option.ite_none_right_eq_some] at h
    obtain ⟨⟨hsome, hfits, hready⟩, hrest⟩ := h
    obtain ⟨s₁, hcall, hrest⟩ := Option.bind_eq_some_iff.mp hrest
    have hreturns : handleDdsInput host reassemble s piece = .ok s₁ := by
      cases hresult : handleDdsInput host reassemble s piece with
      | error failure =>
        rw [hresult] at hcall
        cases hcall
      | ok s₂ =>
        rw [hresult] at hcall
        cases hcall
        rfl
    have hpieces := ih (run.next ⟨⟨hsome, hfits, hreturns⟩, hready⟩) hrest
    simpa using hpieces

def shortPacket : Packet where
  header := { TransportHeader.create .littleEndian with length := 42 }
  samples := [⟨{ DataSampleHeader.create .littleEndian with messageLength := 2 }, [], [7, 8]⟩]

theorem shortPacket_wellFormed : shortPacket.WellFormed .littleEndian := by
  constructor
  · decide
  · intro s hs
    obtain rfl := List.mem_singleton.mp hs
    constructor <;> decide
  · decide

/-- Pieces that end inside the sample header and inside the payload. -/
def shortPieces : List (List UInt8) :=
  let bytes := packetsBytes .littleEndian [shortPacket]
  [bytes.take 30, (bytes.drop 30).take 35, bytes.drop 65]

set_option maxRecDepth 4000 in
theorem chunking_independent_short :
    ∃ s s', Run (create .littleEndian) (ReceivesReady .littleEndian fun _ => none) shortPieces s ∧
      Run (create .littleEndian) (ReceivesReady .littleEndian fun _ => none)
        [packetsBytes .littleEndian [shortPacket]] s' ∧
      s.log.delivered.map (·.payload) = [[7, 8]] ∧ s.log.delivered = s'.log.delivered := by
  have hpieces : ((receiveAll .littleEndian (fun _ => none) (create .littleEndian)
      shortPieces).map fun s => s.log.delivered.map (·.payload)) = some [[7, 8]] := by decide
  have hwhole : (receiveAll .littleEndian (fun _ => none) (create .littleEndian)
      [packetsBytes .littleEndian [shortPacket]]).isSome = true := by decide
  obtain ⟨s, hs, hpayload⟩ := Option.map_eq_some_iff.mp hpieces
  obtain ⟨s', hs'⟩ := Option.isSome_iff_exists.mp hwhole
  have run := run_receiveAll .start hs
  have run' := run_receiveAll .start hs'
  refine ⟨s, s', run, run', hpayload, ?_⟩
  have hps : ∀ p ∈ [shortPacket], p.WellFormed .littleEndian := by
    intro p hp
    obtain rfl := List.mem_singleton.mp hp
    exact shortPacket_wellFormed
  exact (chunking_independent .littleEndian (fun _ => none) [shortPacket] hps).2 _ _ s s' run run'
    (by decide) (by decide)

def bulk : Sample where
  header := { DataSampleHeader.create .littleEndian with messageLength := 65448 }
  entries := []
  payload := List.replicate 65448 0

def bulkPacket : Packet where
  header := { TransportHeader.create .littleEndian with length := 65488 }
  samples := [bulk]

def brief : Sample where
  header := { DataSampleHeader.create .littleEndian with
    publicationId := ⟨Vector.replicate 12 255, Vector.replicate 3 255, 255⟩ }
  entries := []
  payload := []

def briefPacket : Packet where
  header := { TransportHeader.create .littleEndian with length := 40 }
  samples := [brief]

theorem bulk_length : bulk.payload.length = 65448 := List.length_replicate

theorem bulk_ne_nil : bulk.payload ≠ [] := by
  intro hnil
  have hlength := bulk_length
  rw [hnil] at hlength
  cases hlength

theorem bulk_wellFormed : bulk.WellFormed := by
  constructor
  · decide
  · decide
  · decide
  · rw [bulk_length]
    rfl

theorem bulkPacket_wellFormed : bulkPacket.WellFormed .littleEndian := by
  constructor
  · decide
  · intro s hs
    obtain rfl := List.mem_singleton.mp hs
    exact bulk_wellFormed
  · have hwire : (wireBytes .littleEndian bulk.header bulk.entries).length = 40 := by decide
    rw [bulkPacket, samplesBytes_cons, List.length_append, List.length_append, hwire, bulk_length]
    rfl

theorem briefPacket_wellFormed : briefPacket.WellFormed .littleEndian := by
  constructor
  · decide
  · intro s hs
    obtain rfl := List.mem_singleton.mp hs
    constructor <;> decide
  · decide

/-- What the first buffer holds when a stream starts with `bulkPacket` and `briefPacket`. -/
def bulkBuffer : List UInt8 :=
  transportBytes .littleEndian bulkPacket.header ++
    (wireBytes .littleEndian bulk.header bulk.entries ++
      (bulk.payload ++ transportBytes .littleEndian briefPacket.header))

def briefStart : List UInt8 := (wireBytes .littleEndian brief.header brief.entries).take 24

def briefEnd : List UInt8 := (wireBytes .littleEndian brief.header brief.entries).drop 24

theorem bulkBuffer_length : bulkBuffer.length = 65536 := by
  have hwire : (wireBytes .littleEndian bulk.header bulk.entries).length = 40 := by decide
  rw [bulkBuffer, List.length_append, List.length_append, List.length_append, hwire, bulk_length,
    transportBytes_length, transportBytes_length]
  rfl

def emptyBuffers : List (Buffer UInt8) := List.replicate 13 ⟨[], 65536, true⟩ ++ [⟨[], 65536, false⟩]

theorem first_ring : fill (bulkBuffer ++ briefStart) (prepareBuffers (create .littleEndian).buffers) =
    ⟨bulkBuffer, 0, true⟩ :: ⟨briefStart, 65512, true⟩ :: emptyBuffers := by
  have hring : prepareBuffers (create .littleEndian).buffers =
      ⟨[], 65536, true⟩ :: ⟨[], 65536, true⟩ :: emptyBuffers := rfl
  have hstart : briefStart.length = 24 := by decide
  have htake : (bulkBuffer ++ briefStart).take 65536 = bulkBuffer := by
    rw [← bulkBuffer_length, List.take_left]
  have hdrop : (bulkBuffer ++ briefStart).drop 65536 = briefStart := by
    rw [← bulkBuffer_length, List.drop_left]
  have hsecond : briefStart.take 65536 = briefStart := List.take_of_length_le (by omega)
  have hthird : briefStart.drop 65536 = [] := List.drop_eq_nil_of_le (by omega)
  rw [hring, fill, fill]
  simp only [htake, hdrop, hsecond, hthird, fill_nil, List.nil_append, List.length_append,
    bulkBuffer_length, hstart]

theorem first_linked {items items' : List UInt8} : Linked bufferLowWater
    (⟨items, 0, true⟩ :: ⟨items', 65512, true⟩ :: emptyBuffers) := by
  simp [Linked, emptyBuffers, List.replicate]

theorem transportBytes_ne_nil (host : ByteOrder) (h : TransportHeader.Header) :
    transportBytes host h ≠ [] := by
  intro hnil
  have hlength := transportBytes_length host h
  rw [hnil] at hlength
  cases hlength

section

variable {tail : List (Buffer UInt8)} {log : Log} {header : TransportHeader.Header}

theorem bulk_transport (hlinked : ∀ items, Linked bufferLowWater (⟨items, 0, true⟩ :: tail)) :
    manageTransportHeader .littleEndian ⟨⟨header, log, [], 0, 0, true⟩, ⟨bulkBuffer, 0, true⟩ :: tail⟩ =
      .ok (.continues ⟨⟨bulkPacket.header, log, [], 0, 65488, true⟩,
        ⟨wireBytes .littleEndian bulk.header bulk.entries ++
          (bulk.payload ++ transportBytes .littleEndian briefPacket.header), 0, true⟩ :: tail⟩) := by
  have hlength := transportBytes_length .littleEndian bulkPacket.header
  rw [manageTransportHeader_read (h := bulkPacket.header) (hlinked _) rfl (by decide)
    (by rw [unread_cons, bulkBuffer, List.append_assoc])]
  rw [advance_first (by rw [bulkBuffer, List.length_append]; omega), bulkBuffer, ← hlength,
    List.drop_left]
  rfl

theorem bulk_header (hlinked : ∀ items, Linked bufferLowWater (⟨items, 0, true⟩ :: tail)) :
    manageSampleHeader .littleEndian ⟨⟨bulkPacket.header, log, [], 0, 65488, true⟩,
        ⟨wireBytes .littleEndian bulk.header bulk.entries ++
          (bulk.payload ++ transportBytes .littleEndian briefPacket.header), 0, true⟩ :: tail⟩ =
      .ok (.continues ⟨⟨bulkPacket.header,
          { log with header := decoded log.header bulk.header bulk.entries }, [],
          bulk.payload.length, bulk.payload.length, true⟩,
        ⟨bulk.payload ++ transportBytes .littleEndian briefPacket.header, 0, true⟩ :: tail⟩) := by
  have hlength : (wireBytes .littleEndian bulk.header bulk.entries).length = 40 := by decide
  rw [manageSampleHeader_read (s := bulk) (hlinked _) rfl bulk_wellFormed
    (by rw [unread_cons, List.append_assoc])]
  rw [afterSampleHeader, advance_first (by rw [List.length_append]; omega), List.drop_left, hlength]
  have hpdu : sizeSub 65488 40 = bulk.payload.length := by
    rw [bulk_length]
    rfl
  simp only [hpdu]

theorem manageSample_whole {payload more : List UInt8} (hpayload : payload ≠ []) (hmore : more ≠ []) :
    manageSample reassemble ⟨⟨header, log, [], payload.length, payload.length, true⟩,
        ⟨payload ++ more, 0, true⟩ :: tail⟩ =
      .continues ⟨⟨{ header with lastFragment := false }, log.accept reassemble header payload, [],
        0, 0, true⟩, ⟨more, 0, true⟩ :: tail⟩ := by
  have hamount : min payload.length (payload ++ more).length = payload.length := by
    rw [List.length_append]
    omega
  have hadvance : advance payload.length (⟨payload ++ more, 0, true⟩ :: tail) =
      ⟨more, 0, true⟩ :: tail := by
    rw [advance_first (by rw [List.length_append]; omega), List.drop_left]
  have hzero : sizeSub payload.length payload.length = 0 := by
    rw [sizeSub, if_pos (Nat.le_refl _), Nat.sub_self]
  have htaken : takePayload ⟨⟨header, log, [], payload.length, payload.length, true⟩,
        ⟨payload ++ more, 0, true⟩ :: tail⟩ =
      ⟨⟨header, log, payload, 0, 0, true⟩, ⟨more, 0, true⟩ :: tail⟩ := by
    unfold takePayload
    simp only [hamount, List.take_left, hadvance, List.nil_append, Nat.sub_self, hzero]
  have hseek : seek [] (⟨payload ++ more, 0, true⟩ :: tail) =
      some (⟨payload ++ more, 0, true⟩ :: tail) :=
    seek_eq_self fun hnil => hmore (List.append_eq_nil_iff.mp hnil).2
  have hseek' : seek [] (⟨more, 0, true⟩ :: tail) = some (⟨more, 0, true⟩ :: tail) :=
    seek_eq_self hmore
  unfold manageSample
  simp only [updateBufferIndex, hseek, gt_iff_lt, List.length_pos_iff.mpr hpayload, if_true, htaken,
    dispatch, hseek', Bool.false_eq_true, if_false]

theorem brief_transport (hlinked : ∀ items, Linked bufferLowWater (⟨items, 0, true⟩ :: tail)) :
    manageTransportHeader .littleEndian ⟨⟨header, log, [], 0, 0, true⟩,
        ⟨transportBytes .littleEndian briefPacket.header, 0, true⟩ :: tail⟩ =
      .ok (.continues ⟨⟨briefPacket.header, log, [], 0, 40, true⟩, ⟨[], 0, true⟩ :: tail⟩) := by
  have hlength := transportBytes_length .littleEndian briefPacket.header
  rw [manageTransportHeader_read (h := briefPacket.header) (hlinked _) rfl (by decide)
    (by rw [unread_cons])]
  rw [advance_first (Nat.le_of_eq hlength.symm), ← hlength, List.drop_length]
  rfl

theorem brief_header (hlinked : Linked bufferLowWater (⟨[], 0, true⟩ :: tail))
    (htail : unread tail = briefStart) :
    manageSampleHeader .littleEndian ⟨⟨briefPacket.header, log, [], 0, 40, true⟩,
        ⟨[], 0, true⟩ :: tail⟩ =
      .ok (.returns ⟨⟨briefPacket.header, log, [], 0, 40, true⟩, ⟨[], 0, true⟩ :: tail⟩) := by
  have hbrief := briefPacket_wellFormed.samples brief (List.mem_singleton.mpr rfl)
  apply manageSampleHeader_short hlinked rfl hbrief
  · rw [unread_cons, htail, List.nil_append]
    exact (List.take_append_drop 24 _).trans (List.append_nil _).symm
  · rw [unread_cons, htail]
    decide

theorem process_header {fuel : Nat} {inside : Bool} {r r' : Receiving}
    (hout : inside = false ∨ r.pduRemaining = 0)
    (h : manageTransportHeader host r = .ok (.continues r')) :
    process host reassemble (fuel + 1) inside r = process host reassemble fuel true r' := by
  have hloop : ¬ (inside = true ∧ r.pduRemaining > 0) := by
    intro ⟨hinside, hpos⟩
    rcases hout with hout | hout
    · rw [hout] at hinside
      cases hinside
    · omega
  rw [process, if_neg hloop, h]

theorem process_sample {fuel : Nat} {r r₁ r₂ : Receiving} (hpos : r.pduRemaining > 0)
    (h : manageSampleHeader host r = .ok (.continues r₁))
    (h' : manageSample reassemble r₁ = .continues r₂) :
    process host reassemble (fuel + 1) true r = process host reassemble fuel true r₂ := by
  rw [process, if_pos ⟨rfl, hpos⟩, h]
  simp only [h']

theorem process_returns {fuel : Nat} {r r' : Receiving} (hpos : r.pduRemaining > 0)
    (h : manageSampleHeader host r = .ok (.returns r')) :
    process host reassemble (fuel + 1) true r = .ok r' := by
  rw [process, if_pos ⟨rfl, hpos⟩, h]

theorem first_process (reassemble : Reassemble) {p : Parser} (hpayload : p.payload = []) (hsample : p.receiveSampleRemaining = 0)
    (hpdu : p.pduRemaining = 0) (hgood : p.goodPdu = true)
    (hlinked : ∀ items, Linked bufferLowWater (⟨items, 0, true⟩ :: tail))
    (htail : unread tail = briefStart) (fuel : Nat) :
    ∃ r, process .littleEndian reassemble (fuel + 4) false ⟨p, ⟨bulkBuffer, 0, true⟩ :: tail⟩ = .ok r ∧
      r.ring = ⟨[], 0, true⟩ :: tail ∧ r.receiveSampleRemaining = 0 ∧ r.pduRemaining = 40 ∧
      r.goodPdu = true ∧ r.log = Log.accept reassemble bulkPacket.header bulk.payload
        { p.log with header := decoded p.log.header bulk.header bulk.entries } := by
  obtain ⟨header, log, payload, receiveSampleRemaining, pduRemaining, goodPdu⟩ := p
  subst hpayload hsample hpdu hgood
  refine ⟨⟨⟨briefPacket.header, Log.accept reassemble bulkPacket.header bulk.payload
    { log with header := decoded log.header bulk.header bulk.entries }, [], 0, 40, true⟩, _⟩, ?_,
    rfl, rfl, rfl, rfl, rfl⟩
  rw [process_header (.inl rfl) (bulk_transport hlinked),
    process_sample (Nat.zero_lt_succ _) (bulk_header hlinked)
      (manageSample_whole bulk_ne_nil (transportBytes_ne_nil _ _)),
    process_header (.inr rfl) (brief_transport hlinked),
    process_returns (Nat.zero_lt_succ _) (brief_header (hlinked _) htail)]

end

theorem first_call (reassemble : Reassemble) : ∃ s,
    Receives .littleEndian reassemble (create .littleEndian) (bulkBuffer ++ briefStart) s ∧
      s.buffers = (⟨[], 0, true⟩ :: ⟨briefStart, 65512, true⟩ :: emptyBuffers).map some ∧
      s.receiveSampleRemaining = 0 ∧ s.pduRemaining = 40 ∧ s.goodPdu = true ∧
      s.log = Log.accept reassemble bulkPacket.header bulk.payload
        { (create .littleEndian).log with
          header := decoded (create .littleEndian).log.header bulk.header bulk.entries } := by
  have hstart : briefStart.length = 24 := by decide
  have hempty : unread emptyBuffers = [] := rfl
  have hlength : (bulkBuffer ++ briefStart).length = 65560 := by
    rw [List.length_append, bulkBuffer_length, hstart]
  have hsome : bulkBuffer ++ briefStart ≠ [] := by
    intro hnil
    rw [hnil] at hlength
    cases hlength
  have hfits : (bulkBuffer ++ briefStart).length ≤
      spaces (prepareBuffers (create .littleEndian).buffers) := by
    rw [hlength]
    decide
  have hunread : (unread (⟨bulkBuffer, 0, true⟩ :: ⟨briefStart, 65512, true⟩ ::
      emptyBuffers)).length = 65560 := by
    rw [unread_cons, unread_cons, hempty, List.append_nil, hlength]
  obtain ⟨fuel, hfuel⟩ := Nat.exists_eq_add_of_le' (m := 4)
    (n := (unread (⟨bulkBuffer, 0, true⟩ :: ⟨briefStart, 65512, true⟩ :: emptyBuffers)).length + 2)
    (by omega)
  generalize hheader : (if (create .littleEndian).pduRemaining = 0 then
      { (create .littleEndian).transportHeader with
        length := BitVec.ofNat 32 (bulkBuffer ++ briefStart).length }
    else (create .littleEndian).transportHeader) = header
  obtain ⟨r, hr, hring, hsample, hpdu, hgood, hlog⟩ := first_process reassemble
    (p := ⟨header, (create .littleEndian).log, (create .littleEndian).payload,
      (create .littleEndian).receiveSampleRemaining, (create .littleEndian).pduRemaining,
      (create .littleEndian).goodPdu⟩) rfl rfl rfl rfl (fun items => first_linked)
    (by rw [unread_cons, hempty, List.append_nil]) fuel
  refine ⟨{ r with buffers := r.ring.map some }, ⟨hsome, hfits, ?_⟩, ?_, hsample, hpdu, hgood, hlog⟩
  · unfold handleDdsInput
    simp only [hsome, if_false, Nat.not_lt.mpr hfits, hheader, first_ring, hfuel, hr]
  · rw [hring]

theorem second_call (reassemble : Reassemble) {s : Strategy}
    (hbuffers : s.buffers = (⟨[], 0, true⟩ :: ⟨briefStart, 65512, true⟩ :: emptyBuffers).map some)
    (hsample : s.receiveSampleRemaining = 0) (hpdu : s.pduRemaining = 40) (hgood : s.goodPdu = true) :
    ∃ s', Receives .littleEndian reassemble s briefEnd s' ∧ s'.log = s.log := by
  have hring : prepareBuffers s.buffers =
      ⟨[], 65536, true⟩ :: ⟨briefStart, 65512, true⟩ :: emptyBuffers := by
    rw [hbuffers]
    rfl
  have hfilled : fill briefEnd (prepareBuffers s.buffers) =
      ⟨briefEnd, 65520, true⟩ :: ⟨briefStart, 65512, true⟩ :: emptyBuffers := by
    rw [hring]
    rfl
  have hfits : briefEnd.length ≤ spaces (prepareBuffers s.buffers) := by
    rw [hring]
    decide
  have hpartial : manageSampleHeader .littleEndian
        ⟨s.toParser, ⟨briefEnd, 65520, true⟩ :: ⟨briefStart, 65512, true⟩ :: emptyBuffers⟩ =
      .ok (.returns
        ⟨s.toParser, ⟨briefEnd, 65520, true⟩ :: ⟨briefStart, 65512, true⟩ :: emptyBuffers⟩) := by
    have hblocks : blocks (⟨briefEnd, 65520, true⟩ :: ⟨briefStart, 65512, true⟩ :: emptyBuffers) =
        some (⟨0, briefEnd⟩ :: ⟨0, briefStart⟩ :: List.replicate 14 ⟨0, []⟩) := rfl
    have hid : DataSampleHeader.isPartial .littleEndian
        (⟨0, briefEnd⟩ :: ⟨0, briefStart⟩ :: List.replicate 14 ⟨0, []⟩) = true := by decide
    rw [manageSampleHeader, if_pos hsample, hblocks]
    simp only [hid, if_true]
  have hopen : s.pduRemaining ≠ 0 := by
    rw [hpdu]
    decide
  have hprocess : ∀ fuel, process .littleEndian reassemble (fuel + 2) false
        ⟨s.toParser, ⟨briefEnd, 65520, true⟩ :: ⟨briefStart, 65512, true⟩ :: emptyBuffers⟩ =
      .ok ⟨s.toParser, ⟨briefEnd, 65520, true⟩ :: ⟨briefStart, 65512, true⟩ :: emptyBuffers⟩ := by
    intro fuel
    rw [process_header (.inl rfl) (manageTransportHeader_inside hopen hgood),
      process_returns (Nat.pos_of_ne_zero hopen) hpartial]
  refine ⟨{ s with buffers := (⟨briefEnd, 65520, true⟩ :: ⟨briefStart, 65512, true⟩ ::
    emptyBuffers).map some }, ?_, rfl⟩
  refine ⟨by decide, hfits, ?_⟩
  have hsome : briefEnd ≠ [] := by decide
  unfold handleDdsInput
  simp only [hsome, if_false, Nat.not_lt.mpr hfits, hopen, hfilled]
  rw [hprocess]

/-- A stream that is delivered whole in one piece loses its second sample in two. -/
theorem partial_header_misplaced :
    ¬ ∀ (host : ByteOrder) (reassemble : Reassemble) (ps : List Packet),
      (∀ p ∈ ps, p.WellFormed host) → ∀ pieces pieces' s s',
      Run (create host) (Receives host reassemble) pieces s →
      Run (create host) (Receives host reassemble) pieces' s' →
      pieces.flatten = packetsBytes host ps → pieces'.flatten = packetsBytes host ps →
      s.log.delivered = s'.log.delivered := by
  intro claim
  have hps : ∀ p ∈ [bulkPacket, briefPacket], p.WellFormed .littleEndian := by
    intro p hp
    rcases List.mem_cons.mp hp with rfl | hp
    · exact bulkPacket_wellFormed
    · obtain rfl := List.mem_singleton.mp hp
      exact briefPacket_wellFormed
  have hstream : packetsBytes .littleEndian [bulkPacket, briefPacket] =
      bulkBuffer ++ briefStart ++ briefEnd := by
    have hbrief : briefStart ++ briefEnd = wireBytes .littleEndian brief.header brief.entries :=
      List.take_append_drop 24 _
    rw [List.append_assoc, hbrief, bulkBuffer]
    simp [packetsBytes, samplesBytes, bulkPacket, briefPacket, brief]
  -- In one piece both samples are delivered.
  have hbrief : briefStart.length = 24 ∧ briefEnd.length = 16 := by decide
  have hlength : (bulkBuffer ++ briefStart ++ briefEnd).length = 65576 := by
    rw [List.length_append, List.length_append, bulkBuffer_length, hbrief.1, hbrief.2]
  have hspaces : spaces (prepareBuffers (create .littleEndian).buffers) = 1048576 := rfl
  have hsome : bulkBuffer ++ briefStart ++ briefEnd ≠ [] := by
    intro hnil
    rw [hnil] at hlength
    cases hlength
  have hfits : (bulkBuffer ++ briefStart ++ briefEnd).length ≤
      spaces (prepareBuffers (create .littleEndian).buffers) := by omega
  have hawaits := create_awaits .littleEndian (fun _ => none) hps
  rw [hstream, ← List.append_nil (bulkBuffer ++ briefStart ++ briefEnd)] at hawaits
  obtain ⟨whole, hwhole, hawaits'⟩ := handleDdsInput_spec hawaits (by decide) hsome hfits
  have hboth : whole.log.delivered.length = 2 := by
    rw [hawaits'.done rfl]
    rfl
  -- In two pieces the second is not.
  obtain ⟨s, hs, hbuffers, hsample, hpdu, hgood, hlog⟩ := first_call fun _ => none
  obtain ⟨s', hs', hlog'⟩ := second_call (fun _ => none) hbuffers hsample hpdu hgood
  have hone : s'.log.delivered.length = 1 := by
    rw [hlog', hlog]
    rfl
  have hruns := claim .littleEndian (fun _ => none) _ hps [bulkBuffer ++ briefStart, briefEnd]
    [bulkBuffer ++ briefStart ++ briefEnd] s' whole (.next (.next .start hs) hs')
    (.next .start ⟨hsome, hfits, hwhole⟩) (by rw [hstream]; simp) (by rw [hstream]; simp)
  rw [hruns, hboth] at hone
  cases hone

end

end OpenDDS.Guarantees.ReceiveChunking
