import Mathlib.Algebra.Ring.Nat
import OpenDDS.Source.DataSampleHeader

/-!
# The wire format of the data sample header

`operator<<`, `add_cfentries`, `init` and `partial` agree on the format of a header for
every combination of flags, either byte order and every division of the bytes into
blocks: `init` restores what the flags make present and stops behind the header, and
`partial` is true of every proper prefix of the bytes and false from there on.
-/
namespace OpenDDS.Guarantees.HeaderFormat
open Library Library.Chain Source.Serializer Source.DataSampleHeader

variable (host : ByteOrder)

def payloads (swap : Bool) (vs : List Value) : List UInt8 := vs.flatMap (Value.payload host swap)

def payloadSizes (vs : List Value) : Nat := (vs.map Value.payloadSize).sum

theorem payloads_length (swap : Bool) (vs : List Value) :
    (payloads host swap vs).length = payloadSizes vs := by
  simp only [payloads, payloadSizes, List.length_flatMap, Value.payload_length]

theorem payloads_append (swap : Bool) (vs us : List Value) :
    payloads host swap (vs ++ us) = payloads host swap vs ++ payloads host swap us :=
  List.flatMap_append

theorem insert_total {w : Writer} (h : w.alignment = .none) (v : Value) :
    ∃ after, w.insert host v = .ok after := by
  have hal : ∀ al, w.alignFor al = .ok w := by
    simp [Writer.alignFor, h]
  cases v with
  | primitive t x => exact ⟨_, by simp only [Writer.insert, Writer.writePrimitive, hal]; rfl⟩
  | array t xs hxs => exact ⟨_, by simp only [Writer.insert, Writer.writePrimitiveArray, hal]; rfl⟩
  | string x =>
    cases x with
    | none =>
      exact ⟨_, by simp only [Writer.insert, Writer.writeString, Writer.writePrimitive, hal]; rfl⟩
    | some s =>
      exact ⟨_, by simp only [Writer.insert, Writer.writeString, Writer.writePrimitive, hal]; rfl⟩

theorem insertAll_fits (vs : List Value) (w : Writer) (h : w.alignment = .none)
    (hgood : w.goodBit = true) (hfits : payloadSizes vs ≤ (contents w.current).length) :
    ∃ after, w.insertAll host vs = .ok after ∧ after.goodBit = true ∧
      after.written = w.written ++ payloads host w.swapBytes vs := by
  induction vs generalizing w with
  | nil => exact ⟨w, rfl, hgood, by simp [payloads]⟩
  | cons v vs ih =>
    obtain ⟨mid, hmid⟩ := insert_total host h v
    have hout := insert_outcome (p := 0) host (fun hne => absurd h hne) hmid
    have hsize : v.encodedSize w.alignment 0 = v.payloadSize := by
      simp [Value.encodedSize, padding, h]
    have hencode : v.encode host w.swapBytes w.alignment 0 (contents w.current) =
        v.payload host w.swapBytes := by
      simp [Value.encode, padding, padBytes, h]
    rw [hsize, hencode] at hout
    simp only [payloadSizes, List.map_cons, List.sum_cons] at hfits
    obtain ⟨hlen, hstored⟩ := hout.stored (by omega)
    obtain ⟨after, hok, hafter, hwritten⟩ := ih mid (hstored.alignment.trans h)
      (hstored.goodBit.trans hgood)
      (by rw [hstored.contents, hlen, List.length_drop]; unfold payloadSizes; omega)
    refine ⟨after, ?_, hafter, ?_⟩
    · simp only [Writer.insertAll, hmid, hok]
    · rw [hwritten, hstored.written, hstored.swapBytes, List.append_assoc]
      rfl

/-- A reader that is good, does not align, and has `bytes` in front of it. -/
structure Ready (r : Reader) (swap : Bool) (bytes : List UInt8) : Prop where
  goodBit : r.goodBit = true
  alignment : r.alignment = .none
  swapBytes : r.swapBytes = swap
  contents : contents r.current = bytes

theorem extractAll_values {swap : Bool} (vs : List Value) (hrep : ∀ v ∈ vs, v.Representable)
    (rest : List UInt8) (r : Reader) (h : Ready r swap (payloads host swap vs ++ rest)) :
    ∃ after, r.extractAll host (vs.map Value.extraction) = .ok (vs.map Value.datum, after) ∧
      Ready after swap rest := by
  induction vs generalizing r with
  | nil => exact ⟨r, rfl, by simpa [payloads] using h⟩
  | cons v vs ih =>
    have hnone : r.alignment ≠ .none → False := fun hne => hne h.alignment
    have hpadding : padding r.alignment v.align 0 = 0 := by simp [padding, h.alignment]
    have hcontents : Chain.contents r.current =
        [] ++ (v.payload host r.swapBytes ++ (payloads host swap vs ++ rest)) := by
      rw [h.contents, h.swapBytes, payloads, List.flatMap_cons, List.append_assoc]
      rfl
    obtain ⟨mid, hok, hadv⟩ := (extract_value (p := 0) host v h.goodBit
      (fun hne => (hnone hne).elim) (fun _ hne => (hnone hne).elim)
      (List.length_nil.trans hpadding.symm) hcontents).1
      (hrep v (by simp))
    have hsize : v.encodedSize r.alignment 0 = (v.payload host r.swapBytes).length := by
      rw [Value.encodedSize, hpadding, Nat.zero_add, v.payload_length]
    have hmid : Ready mid swap (payloads host swap vs ++ rest) := by
      refine ⟨?_, hadv.alignment.trans h.alignment, hadv.swapBytes.trans h.swapBytes, ?_⟩
      · apply hadv.good_of_le h.goodBit
        rw [hcontents, hsize, List.nil_append, List.length_append]
        omega
      · rw [hadv.contents, hcontents, hsize, List.nil_append, List.drop_left]
    obtain ⟨after, hrest, hafter⟩ := ih (fun v hv => hrep v (by simp [hv])) mid hmid
    refine ⟨after, ?_, hafter⟩
    simp only [List.map_cons, Reader.extractAll, hok, hrest]

def stored (h : Header) (f : Field × List Value) : Header :=
  f.1.store (f.2.map Value.datum) { h with marshaledSize := h.marshaledSize + f.1.size }

theorem readFields_ok {swap : Bool} (fs : List (Field × List Value))
    (hfields : ∀ f ∈ fs, f.1.extractions = f.2.map Value.extraction ∧ ∀ v ∈ f.2, v.Representable)
    (rest : List UInt8) (d : Decoding)
    (h : Ready d.reader swap (payloads host swap (fs.flatMap Prod.snd) ++ rest)) :
    ∃ r, readFields host (fs.map Prod.fst) d = .ok ⟨fs.foldl stored d.header, r⟩ ∧
      Ready r swap rest := by
  induction fs generalizing d with
  | nil => exact ⟨d.reader, rfl, by simpa [payloads] using h⟩
  | cons f fs ih =>
    rw [List.flatMap_cons, payloads_append, List.append_assoc] at h
    obtain ⟨hextract, hrep⟩ := hfields f (by simp)
    obtain ⟨r, hok, hready⟩ := extractAll_values host f.2 hrep _ d.reader h
    have hread : readField host f.1 d = .ok ⟨stored d.header f, r⟩ := by
      unfold readField
      rw [if_pos h.goodBit, hextract, hok]
      simp only [hready.goodBit, if_true]
      rfl
    obtain ⟨last, hrest, hlast⟩ := ih (fun f hf => hfields f (by simp [hf])) ⟨stored d.header f, r⟩
      hready
    refine ⟨last, ?_, hlast⟩
    simp only [List.map_cons, readFields, hread, hrest, List.foldl_cons]

section

theorem hasFlag_flags (h : Header) :
    hasFlag h.flags byteOrderFlag = h.byteOrder ∧
    hasFlag h.flags coherentChangeFlag = h.coherentChange ∧
    hasFlag h.flags historicSampleFlag = h.historicSample ∧
    hasFlag h.flags lifespanDurationFlag = h.lifespanDuration ∧
    hasFlag h.flags groupCoherentFlag = h.groupCoherent ∧
    hasFlag h.flags contentFilterFlag = h.contentFilter ∧
    hasFlag h.flags sequenceRepairFlag = h.sequenceRepair ∧
    hasFlag h.flags moreFragmentsFlag = h.moreFragments := by
  unfold Header.flags
  generalize h.byteOrder = b₀
  generalize h.coherentChange = b₁
  generalize h.historicSample = b₂
  generalize h.lifespanDuration = b₃
  generalize h.groupCoherent = b₄
  generalize h.contentFilter = b₅
  generalize h.sequenceRepair = b₆
  generalize h.moreFragments = b₇
  revert b₀ b₁ b₂ b₃ b₄ b₅ b₆ b₇
  decide

theorem hasFlag_flags2 (h : Header) :
    hasFlag h.flags2 cdrEncapFlag = h.cdrEncapsulation ∧
    hasFlag h.flags2 keyOnlyFlag = h.keyFieldsOnly := by
  unfold Header.flags2
  generalize h.cdrEncapsulation = b₀
  generalize h.keyFieldsOnly = b₁
  revert b₀ b₁
  decide

end

theorem octetsOf_toList {n : Nat} (octets : Vector (BitVec 8) n) :
    octetsOf n octets.toList = octets := by
  apply Vector.ext
  simp [octetsOf]

theorem guidOf_values (guid : GUID) : guidOf ((guidValues guid).map Value.datum) = some guid := by
  simp only [guidValues, octetArray, List.map_cons, List.map_nil, Value.datum, guidOf]
  rw [octetsOf_toList, octetsOf_toList]

theorem octetArray_extraction {n : Nat} (octets : Vector (BitVec 8) n) (h : n < 2 ^ 32) :
    (octetArray octets h).extraction = .array .octet (BitVec.ofNat 32 n) :=
  congrArg (fun length => Extraction.array .octet (BitVec.ofNat 32 length)) octets.length_toList

theorem guidValues_extraction (guid : GUID) :
    (guidValues guid).map Value.extraction = guidExtractions := by
  simp only [guidValues, List.map_cons, List.map_nil, octetArray_extraction]
  rfl

theorem guidValues_representable (guid : GUID) : ∀ v ∈ guidValues guid, v.Representable := by
  intro v hv
  simp only [guidValues, List.mem_cons, List.not_mem_nil, or_false] at hv
  rcases hv with rfl | rfl | rfl <;> trivial

theorem octetArray_size {n : Nat} (octets : Vector (BitVec 8) n) (h : n < 2 ^ 32) :
    (octetArray octets h).payloadSize = n :=
  (Nat.one_mul _).trans octets.length_toList

theorem guidValues_size (guid : GUID) : payloadSizes (guidValues guid) = 16 := by
  simp only [payloadSizes, guidValues, List.map_cons, List.map_nil, octetArray_size, List.sum_cons,
    List.sum_nil]
  rfl

/-- The fields up to the flags, with the values they are read from. -/
def idParts (h : Header) : List (Field × List Value) :=
  idFields.zip [[.primitive .char h.messageId], [.primitive .char h.submessageId],
    [.primitive .octet h.flags]]

def fixedParts (h : Header) : List (Field × List Value) :=
  fixedFields.zip [[.primitive .octet h.flags2], [.primitive .ulong h.messageLength],
    [.primitive .long h.sequenceHigh, .primitive .ulong h.sequenceLow],
    [.primitive .long h.sourceTimestampSec], [.primitive .ulong h.sourceTimestampNanosec]]

def optionalParts (h : Header) : List (Field × List Value) :=
  (if h.lifespanDuration then
    lifespanFields.zip [[.primitive .long h.lifespanDurationSec],
      [.primitive .ulong h.lifespanDurationNanosec]] else []) ++
  [(guidField fun guid h => { h with publicationId := guid }, guidValues h.publicationId)] ++
  if h.groupCoherent then
    [(guidField fun guid h => { h with publisherId := guid }, guidValues h.publisherId)] else []

theorem values_eq_parts (h : Header) :
    h.values = (idParts h).flatMap Prod.snd ++ ((fixedParts h).flatMap Prod.snd ++
      (optionalParts h).flatMap Prod.snd) := by
  unfold Header.values optionalParts
  cases h.lifespanDuration <;> cases h.groupCoherent <;> rfl

theorem payloadSizes_append (vs us : List Value) :
    payloadSizes (vs ++ us) = payloadSizes vs + payloadSizes us := by
  simp [payloadSizes]

theorem values_size (h : Header) :
    payloadSizes h.values =
      40 + (if h.lifespanDuration then 8 else 0) + if h.groupCoherent then 16 else 0 := by
  have hgroup : payloadSizes (if h.groupCoherent then guidValues h.publisherId else []) =
      if h.groupCoherent then 16 else 0 := by
    split
    · exact guidValues_size _
    · rfl
  unfold Header.values
  rw [payloadSizes_append, payloadSizes_append, payloadSizes_append, guidValues_size, hgroup]
  cases h.lifespanDuration <;> cases h.groupCoherent <;> rfl

theorem expectedSize_flags (h : Header) : expectedSize h.flags = payloadSizes h.values := by
  obtain ⟨-, -, -, hlifespan, hgroup, -⟩ := hasFlag_flags h
  rw [values_size]
  unfold expectedSize maxMarshaledSize
  rw [hlifespan, hgroup]
  cases h.lifespanDuration <;> cases h.groupCoherent <;> rfl

theorem idParts_fields (h : Header) : ∀ f ∈ idParts h,
    f.1.extractions = f.2.map Value.extraction ∧ ∀ v ∈ f.2, v.Representable := by
  intro f hf
  simp only [idParts, idFields, List.zip_cons_cons, List.zip_nil_right, List.mem_cons,
    List.not_mem_nil, or_false] at hf
  rcases hf with rfl | rfl | rfl <;> refine ⟨rfl, ?_⟩ <;> simp [Value.Representable]

theorem fixedParts_fields (h : Header) : ∀ f ∈ fixedParts h,
    f.1.extractions = f.2.map Value.extraction ∧ ∀ v ∈ f.2, v.Representable := by
  intro f hf
  simp only [fixedParts, fixedFields, List.zip_cons_cons, List.zip_nil_right, List.mem_cons,
    List.not_mem_nil, or_false] at hf
  rcases hf with rfl | rfl | rfl | rfl | rfl <;> refine ⟨rfl, ?_⟩ <;> simp [Value.Representable]

theorem optionalParts_fields (h : Header) : ∀ f ∈ optionalParts h,
    f.1.extractions = f.2.map Value.extraction ∧ ∀ v ∈ f.2, v.Representable := by
  intro f hf
  simp only [optionalParts, List.mem_append, List.mem_singleton] at hf
  rcases hf with (hf | rfl) | hf
  · split at hf
    · simp only [lifespanFields, List.zip_cons_cons, List.zip_nil_right, List.mem_cons,
        List.not_mem_nil, or_false] at hf
      rcases hf with rfl | rfl <;> refine ⟨rfl, ?_⟩ <;> simp [Value.Representable]
    · simp at hf
  · exact ⟨(guidValues_extraction _).symm, guidValues_representable _⟩
  · split at hf
    · rw [List.mem_singleton] at hf
      subst hf
      exact ⟨(guidValues_extraction _).symm, guidValues_representable _⟩
    · simp at hf

/-- The header after the first flags octet, from a header `old`. -/
def afterIds (old h : Header) : Header :=
  { old with messageId := h.messageId, submessageId := h.submessageId, byteOrder := h.byteOrder
             coherentChange := h.coherentChange, historicSample := h.historicSample
             lifespanDuration := h.lifespanDuration, groupCoherent := h.groupCoherent
             contentFilter := h.contentFilter, sequenceRepair := h.sequenceRepair
             moreFragments := h.moreFragments, marshaledSize := 3 }

def afterFixed (old h : Header) : Header :=
  { afterIds old h with
      cdrEncapsulation := h.cdrEncapsulation, keyFieldsOnly := h.keyFieldsOnly
      messageLength := h.messageLength, sequenceHigh := h.sequenceHigh
      sequenceLow := h.sequenceLow, sourceTimestampSec := h.sourceTimestampSec
      sourceTimestampNanosec := h.sourceTimestampNanosec, marshaledSize := 24 }

/-- The header after every field that the flags make present, up to the content-filter
entries. -/
def afterOptional (old h : Header) : Header :=
  { afterFixed old h with
      lifespanDurationSec :=
        if h.lifespanDuration then h.lifespanDurationSec else old.lifespanDurationSec
      lifespanDurationNanosec :=
        if h.lifespanDuration then h.lifespanDurationNanosec else old.lifespanDurationNanosec
      publicationId := h.publicationId
      publisherId := if h.groupCoherent then h.publisherId else old.publisherId
      marshaledSize := payloadSizes h.values }

theorem idParts_stored (old h : Header) :
    (idParts h).foldl stored { old with marshaledSize := 0 } = afterIds old h := by
  obtain ⟨h₀, h₁, h₂, h₃, h₄, h₅, h₆, h₇⟩ := hasFlag_flags h
  simp only [idParts, idFields, List.zip_cons_cons, List.zip_nil_right, List.foldl_cons,
    List.foldl_nil, stored, charField, octetField, List.map_cons, List.map_nil, Value.datum,
    storeFlags, h₀, h₁, h₂, h₃, h₄, h₅, h₆, h₇, afterIds]

theorem fixedParts_stored (old h : Header) :
    (fixedParts h).foldl stored (afterIds old h) = afterFixed old h := by
  obtain ⟨h₀, h₁⟩ := hasFlag_flags2 h
  simp only [fixedParts, fixedFields, List.zip_cons_cons, List.zip_nil_right, List.foldl_cons,
    List.foldl_nil, stored, octetField, longField, ulongField, sequenceField, List.map_cons,
    List.map_nil, Value.datum, storeFlags2, h₀, h₁, afterIds, afterFixed]

theorem guidField_stored (store : GUID → Header → Header) (guid : GUID) (h : Header) :
    stored h (guidField store, guidValues guid) =
      store guid { h with marshaledSize := h.marshaledSize + 16 } := by
  simp only [stored, guidField, guidOf_values]

theorem optionalParts_stored (old h : Header) :
    (optionalParts h).foldl stored (afterFixed old h) = afterOptional old h := by
  have hsize := values_size h
  unfold optionalParts afterOptional
  cases hlifespan : h.lifespanDuration <;> cases hgroup : h.groupCoherent <;>
    simp only [hlifespan, hgroup, Bool.false_eq_true, if_true, if_false] at hsize ⊢ <;>
    simp only [List.nil_append, List.append_nil, List.foldl_append, List.foldl_cons, List.foldl_nil,
      guidField_stored, hsize, lifespanFields, List.zip_cons_cons, List.zip_nil_right] <;> rfl

theorem optionalParts_fst (h : Header) (g : Header) (hlifespan : g.lifespanDuration = h.lifespanDuration)
    (hgroup : g.groupCoherent = h.groupCoherent) :
    optionalFields g = (optionalParts h).map Prod.fst := by
  unfold optionalFields optionalParts
  rw [hlifespan, hgroup]
  cases h.lifespanDuration <;> cases h.groupCoherent <;> rfl

theorem readGuids_ok {swap : Bool} (guids : List GUID) (rest : List UInt8) (r : Reader)
    (h : Ready r swap (payloads host swap (guids.flatMap guidValues) ++ rest)) :
    ∃ after, readGuids host guids.length r = .ok (guids, after) ∧ Ready after swap rest := by
  induction guids generalizing r with
  | nil => exact ⟨r, rfl, by simpa [payloads] using h⟩
  | cons guid guids ih =>
    rw [List.flatMap_cons, payloads_append, List.append_assoc] at h
    obtain ⟨mid, hok, hmid⟩ := extractAll_values host (guidValues guid)
      (guidValues_representable guid) _ r h
    rw [guidValues_extraction] at hok
    obtain ⟨after, hrest, hafter⟩ := ih mid hmid
    refine ⟨after, ?_, hafter⟩
    simp only [List.length_cons, readGuids, hok, hmid.goodBit, if_true, hrest, guidOf_values]
    rfl

theorem readEntries_ok {swap : Bool} (guids : List GUID) (hguids : guids.length < 2 ^ 32)
    (rest : List UInt8) (d : Decoding)
    (h : Ready d.reader swap (payloads host swap (guidSeqValues guids) ++ rest)) :
    ∃ r, readEntries host d = .ok ⟨{ d.header with
        contentFilterEntries := guids
        marshaledSize := d.header.marshaledSize + guidSeqSize guids }, r⟩ ∧ Ready r swap rest := by
  have hsplit : payloads host swap (guidSeqValues guids) ++ rest =
      payloads host swap [.primitive .ulong (BitVec.ofNat 32 guids.length)] ++
        (payloads host swap (guids.flatMap guidValues) ++ rest) := by
    rw [← List.append_assoc, ← payloads_append]
    rfl
  rw [hsplit] at h
  obtain ⟨mid, hall, hmid⟩ := extractAll_values host
    [.primitive .ulong (BitVec.ofNat 32 guids.length)] (by simp [Value.Representable]) _ d.reader h
  have hlength : d.reader.readPrimitive host .ulong = .ok (BitVec.ofNat 32 guids.length, mid) := by
    simp only [List.map_cons, List.map_nil, Value.extraction, Value.datum, Reader.extractAll,
      Reader.extract] at hall
    cases hread : d.reader.readPrimitive host .ulong with
    | error fault =>
      rw [hread] at hall
      cases hall
    | ok read =>
      obtain ⟨x, r⟩ := read
      rw [hread] at hall
      cases hall
      rfl
  obtain ⟨r, hguidsOk, hr⟩ := readGuids_ok host guids rest mid hmid
  have hnat : (BitVec.ofNat 32 guids.length).toNat = guids.length := by
    rw [BitVec.toNat_ofNat, Nat.mod_eq_of_lt hguids]
  have hnat' : BitVec.toNat (w := 8 * Primitive.ulong.size) (BitVec.ofNat 32 guids.length) =
      guids.length := hnat
  refine ⟨r, ?_, hr⟩
  unfold readEntries
  simp only [h.goodBit, if_true, hlength, hmid.goodBit, hnat', hguidsOk, hr.goodBit]

/-- What `init` makes of the header `old` when it reads `h` with these entries. -/
def decoded (old h : Header) (guids : List GUID) : Header :=
  if h.contentFilter then
    { afterOptional old h with
        contentFilterEntries := guids
        marshaledSize := payloadSizes h.values + guidSeqSize guids }
  else afterOptional old h

/-- The wire bytes of a header and, when its flag is set, of the entries. -/
def wireBytes (h : Header) (guids : List GUID) : List UInt8 :=
  let swap := h.byteOrder != aceCdrByteOrder host
  payloads host swap h.values ++
    if h.contentFilter then payloads host swap (guidSeqValues guids) else []

theorem ordered_octet (swap : Bool) {bytes : List UInt8} (h : bytes.length = 1) :
    ordered swap bytes = bytes := by
  obtain ⟨b, rfl⟩ := List.length_eq_one_iff.mp h
  cases swap <;> rfl

theorem idParts_payloads (swap : Bool) (h : Header) :
    payloads host swap ((idParts h).flatMap Prod.snd) =
      host.toBytes 1 h.messageId.toNat ++ (host.toBytes 1 h.submessageId.toNat ++
        host.toBytes 1 h.flags.toNat) := by
  have hchar : ∀ x : BitVec 8, Value.payload host swap (.primitive .char x) =
      host.toBytes 1 x.toNat := fun x => ordered_octet _ (host.length_toBytes 1 _)
  have hoctet : ∀ x : BitVec 8, Value.payload host swap (.primitive .octet x) =
      host.toBytes 1 x.toNat := fun x => ordered_octet _ (host.length_toBytes 1 _)
  simp only [payloads, idParts, idFields, List.zip_cons_cons, List.zip_nil_right, List.flatMap_cons,
    List.flatMap_nil, List.append_nil, List.cons_append, List.nil_append, hchar, hoctet]

theorem init_ok (old h : Header) (guids : List GUID) (hguids : guids.length < 2 ^ 32)
    (buffer : List (Block UInt8)) (more : List UInt8)
    (hbuffer : contents buffer = wireBytes host h guids ++ more) :
    ∃ r, init host old buffer = .ok ⟨decoded old h guids, r⟩ ∧ r.goodBit = true ∧
      contents r.current = more := by
  generalize hswap : (h.byteOrder != aceCdrByteOrder host) = swap
  unfold wireBytes at hbuffer
  rw [hswap] at hbuffer
  simp only [values_eq_parts, payloads_append, List.append_assoc] at hbuffer
  have hstart : Ready (Reader.ofChain buffer false .none) false
      (payloads host false ((idParts h).flatMap Prod.snd) ++ _) :=
    ⟨rfl, rfl, rfl, hbuffer.trans (by rw [idParts_payloads host swap, ← idParts_payloads host false])⟩
  obtain ⟨r₁, hids, hready₁⟩ := readFields_ok host (idParts h) (idParts_fields h) _
    ⟨{ old with marshaledSize := 0 }, Reader.ofChain buffer false .none⟩ hstart
  rw [idParts_stored] at hids
  have hready₁' : Ready { r₁ with swapBytes := swap } swap
      (payloads host swap ((fixedParts h).flatMap Prod.snd) ++ _) :=
    ⟨hready₁.goodBit, hready₁.alignment, rfl, hready₁.contents⟩
  obtain ⟨r₂, hfixed, hready₂⟩ := readFields_ok host (fixedParts h) (fixedParts_fields h) _
    ⟨afterIds old h, { r₁ with swapBytes := swap }⟩ hready₁'
  rw [fixedParts_stored] at hfixed
  obtain ⟨r₃, hoptional, hready₃⟩ := readFields_ok host (optionalParts h) (optionalParts_fields h) _
    ⟨afterFixed old h, r₂⟩ hready₂
  rw [optionalParts_stored, ← optionalParts_fst h (afterFixed old h) rfl rfl] at hoptional
  have hinit : init host old buffer =
      if h.contentFilter then readEntries host ⟨afterOptional old h, r₃⟩
      else .ok ⟨afterOptional old h, r₃⟩ := by
    have hids' : readFields host idFields
        ⟨{ old with marshaledSize := 0 }, Reader.ofChain buffer false .none⟩ =
        .ok ⟨afterIds old h, r₁⟩ := hids
    have hfixed' : readFields host fixedFields ⟨afterIds old h, { r₁ with swapBytes := swap }⟩ =
        .ok ⟨afterFixed old h, r₂⟩ := hfixed
    have horder : ((afterIds old h).byteOrder != aceCdrByteOrder host) = swap := hswap
    unfold init
    simp only [hids', horder, hfixed', hoptional]
    rfl
  rw [hinit]
  unfold decoded
  cases hfilter : h.contentFilter with
  | false =>
    simp only [hfilter, Bool.false_eq_true, if_false, List.nil_append] at hready₃ ⊢
    exact ⟨r₃, rfl, hready₃.goodBit, hready₃.contents⟩
  | true =>
    simp only [hfilter, if_true] at hready₃ ⊢
    obtain ⟨r₄, hentries, hready₄⟩ := readEntries_ok host guids hguids more
      ⟨afterOptional old h, r₃⟩ hready₃
    exact ⟨r₄, hentries, hready₄.goodBit, hready₄.contents⟩

section

variable {chain : List (Block UInt8)}

theorem mbPeek_spec {α : Type} (copy : List (Block UInt8) → Option α)
    (chain : List (Block UInt8)) (offset : Nat) :
    (contents chain).length ≤ offset ∧ mbPeek copy chain offset = none ∨
    ∃ rest, offset < (contents chain).length ∧ contents rest = (contents chain).drop offset ∧
      mbPeek copy chain offset = copy rest := by
  induction chain generalizing offset with
  | nil => exact .inl ⟨Nat.zero_le _, rfl⟩
  | cons b blocks ih =>
    unfold mbPeek
    simp only [contents_cons, List.length_append]
    split
    · right
      refine ⟨b.drop offset :: blocks, by omega, ?_, rfl⟩
      rw [contents_cons, Block.drop, List.drop_append_of_le_length (by omega)]
    · have hdrop : (b.items ++ contents blocks).drop offset =
          (contents blocks).drop (offset - b.items.length) := by
        rw [List.drop_append, List.drop_eq_nil_of_le (by omega), List.nil_append]
      rw [hdrop]
      rcases ih (offset - b.items.length) with ⟨hle, hnone⟩ | ⟨rest, hlt, hrest, heq⟩
      · exact .inl ⟨by omega, hnone⟩
      · exact .inr ⟨rest, by omega, hrest, heq⟩

theorem mbPeek_mbCopy {size : Nat} (hpos : 0 < size) (hsize : size ≤ 16) (swap : Bool)
    (offset : Nat) :
    mbPeek (mbCopy host size swap) chain offset =
      if offset + size ≤ (contents chain).length then
        some (host.ofBytes (ordered swap (((contents chain).drop offset).take size)))
      else none := by
  rcases mbPeek_spec (mbCopy host size swap) chain offset with
    ⟨hle, hnone⟩ | ⟨rest, hlt, hrest, heq⟩
  · rw [hnone, if_neg (by omega)]
  · have hlen : totalLength rest = (contents chain).length - offset := by
      rw [totalLength, hrest, List.length_drop]
    rw [heq, mbCopy, hlen]
    by_cases hfits : offset + size ≤ (contents chain).length
    · have hread := bufferRead_bytes (Reader.ofChain rest swap .none) (fun _ : swap = true => hsize)
        (show size ≤ (contents rest).length by rw [← totalLength]; omega)
      rw [if_neg (by omega), if_pos hfits, hread, ← hrest]
      rfl
    · rw [if_pos (by omega), if_neg hfits]

theorem mbPeek_mbCopyChar (offset : Nat) :
    mbPeek mbCopyChar chain offset = (contents chain)[offset]?.map UInt8.toBitVec := by
  rcases mbPeek_spec mbCopyChar chain offset with ⟨hle, hnone⟩ | ⟨rest, hlt, hrest, heq⟩
  · rw [hnone, List.getElem?_eq_none hle]
    rfl
  · rw [heq, mbCopyChar, hrest, List.head?_drop]

theorem guidSeqValues_size (guids : List GUID) :
    payloadSizes (guidSeqValues guids) = guidSeqSize guids := by
  have hguids : payloadSizes (guids.flatMap guidValues) = 16 * guids.length := by
    induction guids with
    | nil => rfl
    | cons guid guids ih =>
      rw [List.flatMap_cons, payloadSizes_append, guidValues_size, ih, List.length_cons]
      omega
  unfold guidSeqValues guidSeqSize
  rw [← hguids, payloadSizes, List.map_cons, List.sum_cons]
  rfl

theorem wireBytes_length (h : Header) (guids : List GUID) :
    (wireBytes host h guids).length =
      payloadSizes h.values + if h.contentFilter then guidSeqSize guids else 0 := by
  unfold wireBytes
  rw [List.length_append, payloads_length]
  split
  · rw [payloads_length, guidSeqValues_size]
  · rfl

theorem payloads_ids (swap : Bool) (h : Header) :
    ∃ rest, payloads host swap h.values = UInt8.ofNat h.messageId.toNat ::
      UInt8.ofNat h.submessageId.toNat :: UInt8.ofNat h.flags.toNat :: rest := by
  have hone : ∀ x : BitVec 8, host.toBytes 1 x.toNat = [UInt8.ofNat x.toNat] := by
    intro x
    have hlt := x.isLt
    have hmod : x.toNat % 256 = x.toNat := Nat.mod_eq_of_lt hlt
    cases host <;> simp [ByteOrder.toBytes, ByteOrder.lowFirst, hmod]
  rw [values_eq_parts, payloads_append, idParts_payloads, hone, hone, hone]
  exact ⟨_, rfl⟩

theorem wireBytes_entries (h : Header) (guids : List GUID) (hguids : guids.length < 2 ^ 32)
    (hfilter : h.contentFilter = true) :
    host.ofBytes (ordered (h.byteOrder != aceCdrByteOrder host)
      (((wireBytes host h guids).drop (payloadSizes h.values)).take 4)) = guids.length := by
  have hlt : guids.length < 256 ^ 4 := hguids
  have hnat : (BitVec.ofNat 32 guids.length).toNat = guids.length := by
    rw [BitVec.toNat_ofNat, Nat.mod_eq_of_lt hguids]
  have hsplit : payloads host (h.byteOrder != aceCdrByteOrder host) (guidSeqValues guids) =
      ordered (h.byteOrder != aceCdrByteOrder host) (host.toBytes 4 guids.length) ++
        payloads host (h.byteOrder != aceCdrByteOrder host) (guids.flatMap guidValues) := by
    have hpayload : Value.payload host (h.byteOrder != aceCdrByteOrder host)
        (.primitive .ulong (BitVec.ofNat 32 guids.length)) =
        ordered (h.byteOrder != aceCdrByteOrder host)
          (host.toBytes 4 (BitVec.ofNat 32 guids.length).toNat) := rfl
    rw [payloads, guidSeqValues, List.flatMap_cons, hpayload, hnat]
    rfl
  have hlen : (ordered (h.byteOrder != aceCdrByteOrder host)
      (host.toBytes 4 guids.length)).length = 4 := by
    rw [ordered_length, ByteOrder.length_toBytes]
  unfold wireBytes
  dsimp only
  rw [hfilter, if_pos rfl, List.drop_left' (payloads_length host _ _), hsplit,
    List.take_left' hlen, ordered_ordered, host.ofBytes_toBytes hlt]

theorem isPartial_eq {h : Header} {guids : List GUID} (hid : h.messageId.toNat < messageIdMax)
    (hsub : h.submessageId.toNat < submessageIdMax) (hguids : guids.length < 2 ^ 32)
    (hagree : ∀ n, n ≤ (contents chain).length → n ≤ (wireBytes host h guids).length →
      (contents chain).take n = (wireBytes host h guids).take n) :
    isPartial host chain = decide ((contents chain).length < (wireBytes host h guids).length) := by
  obtain ⟨rest, hids⟩ : ∃ rest, wireBytes host h guids = UInt8.ofNat h.messageId.toNat ::
      UInt8.ofNat h.submessageId.toNat :: UInt8.ofNat h.flags.toNat :: rest := by
    obtain ⟨rest, hids⟩ := payloads_ids host (h.byteOrder != aceCdrByteOrder host) h
    unfold wireBytes
    dsimp only
    rw [hids]
    exact ⟨_, rfl⟩
  have hlength := wireBytes_length host h guids
  have hvalues : 40 ≤ payloadSizes h.values := by
    rw [values_size]
    omega
  have hpiece : ∀ offset size, offset + size ≤ (contents chain).length →
      offset + size ≤ (wireBytes host h guids).length →
      ((contents chain).drop offset).take size =
        ((wireBytes host h guids).drop offset).take size := by
    intro offset size hle hle'
    have := congrArg (List.drop offset) (hagree (offset + size) hle hle')
    rwa [List.drop_take, List.drop_take, Nat.add_sub_cancel_left] at this
  unfold isPartial totalLength
  dsimp only
  split
  · rename_i hshort
    unfold flagsOffset at hshort
    have : (contents chain).length < (wireBytes host h guids).length := by omega
    simp [this]
  · rename_i hlong
    unfold flagsOffset at hlong
    have hoctet : ∀ x : BitVec 8, host.ofBytes (ordered false [UInt8.ofNat x.toNat]) = x.toNat := by
      cases host <;> simp [ByteOrder.ofBytes, ByteOrder.ofLowFirst, ordered]
    have hfirst : mbPeek (mbCopy host 1 false) chain 0 = some h.messageId.toNat := by
      rw [mbPeek_mbCopy host (by omega) (by omega), if_pos (by omega),
        hpiece 0 1 (by omega) (by omega), hids]
      exact congrArg some (hoctet h.messageId)
    have hsecond : mbPeek (mbCopy host 1 false) chain 1 = some h.submessageId.toNat := by
      rw [mbPeek_mbCopy host (by omega) (by omega), if_pos (by omega),
        hpiece 1 1 (by omega) (by omega), hids]
      exact congrArg some (hoctet h.submessageId)
    have hthird : mbPeek mbCopyChar chain flagsOffset = some h.flags := by
      have htake := hagree 3 (by omega) (by omega)
      have hget : (contents chain)[2]? = some (UInt8.ofNat h.flags.toNat) := by
        rw [← List.getElem?_take_of_lt (show 2 < 3 by omega), htake, hids]
        rfl
      rw [mbPeek_mbCopyChar, flagsOffset, hget]
      simp
    obtain ⟨horder, -, -, -, -, hfilter, -⟩ := hasFlag_flags h
    simp only [hfirst, hsecond, hthird, ge_iff_le, Nat.not_le.mpr hid, Nat.not_le.mpr hsub, if_false,
      horder, hfilter, expectedSize_flags]
    cases hf : h.contentFilter with
    | false =>
      rw [hf] at hlength
      simp only [Bool.false_eq_true, if_false, Nat.add_zero] at hlength ⊢
      rw [hlength]
    | true =>
      rw [hf] at hlength
      simp only [if_true] at hlength ⊢
      unfold guidSeqSize at hlength
      rw [mbPeek_mbCopy host (by omega) (by omega)]
      by_cases hfits : payloadSizes h.values + 4 ≤ (contents chain).length
      · rw [if_pos hfits, hpiece _ _ hfits (by omega), wireBytes_entries host h guids hguids hf,
          hlength]
      · rw [if_neg hfits]
        have : (contents chain).length < (wireBytes host h guids).length := by omega
        simp [this]

end

theorem marshal_ok (h : Header) {buffer : Block UInt8}
    (hbuffer : maxMarshaledSize ≤ buffer.items.length) :
    ∃ w, marshal host buffer h = .ok w ∧ w.goodBit = true ∧
      w.written = payloads host (h.byteOrder != aceCdrByteOrder host) h.values := by
  have hfits : payloadSizes h.values ≤ (contents [buffer]).length := by
    have hsize : payloadSizes h.values ≤ maxMarshaledSize := by
      rw [values_size]
      unfold maxMarshaledSize
      split <;> split <;> omega
    simp only [contents_cons, contents_nil, List.append_nil]
    omega
  obtain ⟨w, hok, hgood, hwritten⟩ := insertAll_fits host h.values
    (Writer.ofChain [buffer] (h.byteOrder != aceCdrByteOrder host) .none) rfl rfl hfits
  exact ⟨w, hok, hgood, hwritten⟩

theorem addCfentries_ok (h : Header) (guids : List GUID) {memory : Block UInt8}
    (hmemory : memory.items.length = guidSeqSize guids) :
    ∃ opt, addCfentries host guids (payloads host (h.byteOrder != aceCdrByteOrder host) h.values)
        memory = .ok opt ∧
      opt.written = payloads host (h.byteOrder != aceCdrByteOrder host) (guidSeqValues guids) := by
  have hflag : testFlag byteOrderFlag
      (payloads host (h.byteOrder != aceCdrByteOrder host) h.values) = h.byteOrder := by
    obtain ⟨rest, hids⟩ := payloads_ids host (h.byteOrder != aceCdrByteOrder host) h
    have hbits : (UInt8.ofNat h.flags.toNat).toBitVec = h.flags := by simp
    rw [hids, testFlag]
    show hasFlag (UInt8.ofNat h.flags.toNat).toBitVec byteOrderFlag = h.byteOrder
    rw [hbits]
    exact (hasFlag_flags h).1
  have hswap : (aceCdrByteOrder host != h.byteOrder) = (h.byteOrder != aceCdrByteOrder host) :=
    bne_comm
  have hfits : payloadSizes (guidSeqValues guids) ≤ (contents [memory]).length := by
    rw [guidSeqValues_size]
    simp [hmemory]
  obtain ⟨opt, hok, -, hwritten⟩ := insertAll_fits host (guidSeqValues guids)
    (Writer.ofChain [memory] (h.byteOrder != aceCdrByteOrder host) .none) rfl rfl hfits
  refine ⟨opt, ?_, hwritten⟩
  unfold addCfentries
  rw [hflag, hswap]
  exact hok

/-- A header marshaled into a buffer of the maximal size, with its content-filter entries
behind it when the flag is set: `init` restores every field that the flags make present
and uses exactly these bytes, and `partial` tells their proper prefixes from the rest. -/
theorem header_wire_format (old h : Header) (guids : List GUID) (buffer memory : Block UInt8)
    (hid : h.messageId.toNat < messageIdMax) (hsub : h.submessageId.toNat < submessageIdMax)
    (hguids : guids.length < 2 ^ 32) (hbuffer : maxMarshaledSize ≤ buffer.items.length)
    (hmemory : memory.items.length = guidSeqSize guids) :
    ∃ w opt bytes, marshal host buffer h = .ok w ∧ w.goodBit = true ∧
      addCfentries host guids w.written memory = .ok opt ∧
      bytes = w.written ++ (if h.contentFilter then opt.written else []) ∧
      (∀ chain more, contents chain = bytes ++ more →
        (∃ r, init host old chain = .ok ⟨decoded old h guids, r⟩ ∧ r.goodBit = true ∧
          contents r.current = more) ∧
        (decoded old h guids).marshaledSize = bytes.length ∧ isPartial host chain = false) ∧
      ∀ chain n, n < bytes.length → contents chain = bytes.take n → isPartial host chain = true := by
  obtain ⟨w, hw, hgood, hwritten⟩ := marshal_ok host h hbuffer
  obtain ⟨opt, hopt, hentries⟩ := addCfentries_ok host h guids hmemory
  refine ⟨w, opt, wireBytes host h guids, hw, hgood, by rw [hwritten]; exact hopt, ?_, ?_, ?_⟩
  · rw [hwritten, hentries]
    rfl
  · intro chain more hchain
    refine ⟨init_ok host old h guids hguids chain more hchain, ?_, ?_⟩
    · rw [wireBytes_length]
      unfold decoded
      split <;> rfl
    · rw [isPartial_eq host hid hsub hguids]
      · rw [hchain, List.length_append]
        simp
      · intro n _ hn
        rw [hchain, List.take_append_of_le_length hn]
  · intro chain n hn hchain
    rw [isPartial_eq host hid hsub hguids]
    · rw [hchain, List.length_take]
      simp
      omega
    · intro m hm _
      rw [hchain, List.length_take] at hm
      rw [hchain, List.take_take, Nat.min_eq_left (by omega)]

private def someGuid : GUID :=
  { guidPrefix := Vector.replicate 12 1, entityKey := Vector.replicate 3 2, entityKind := 7 }

/-- A big-endian sample with a lifespan and a content-filter entry. -/
private def filteredSample : Header :=
  { messageId := 0, submessageId := 0, byteOrder := false, coherentChange := false
    historicSample := false, lifespanDuration := true, groupCoherent := false
    contentFilter := true, sequenceRepair := true, moreFragments := false
    cdrEncapsulation := false, keyFieldsOnly := true, messageLength := 100, sequenceHigh := 0
    sequenceLow := 5, sourceTimestampSec := 9, sourceTimestampNanosec := 8
    lifespanDurationSec := 7, lifespanDurationNanosec := 6, publicationId := someGuid
    publisherId := someGuid, contentFilterEntries := [], marshaledSize := 0 }

/-- Read on a little-endian host, the sample comes back with its entry. -/
theorem header_wire_format_filtered :
    ∃ w opt bytes, marshal .littleEndian ⟨0, List.replicate 64 0⟩ filteredSample = .ok w ∧
      addCfentries .littleEndian [someGuid] w.written ⟨0, List.replicate 20 0⟩ = .ok opt ∧
      bytes = w.written ++ opt.written ∧
      ∃ r, init .littleEndian filteredSample [⟨0, bytes⟩] =
        .ok ⟨decoded filteredSample filteredSample [someGuid], r⟩ ∧ r.goodBit = true ∧
        contents r.current = [] := by
  obtain ⟨w, opt, bytes, hw, -, hopt, hbytes, hread, -⟩ := header_wire_format .littleEndian
    filteredSample filteredSample [someGuid] ⟨0, List.replicate 64 0⟩ ⟨0, List.replicate 20 0⟩
    (by decide) (by decide) (by decide) (by decide) (by decide)
  exact ⟨w, opt, bytes, hw, hopt, hbytes, (hread [⟨0, bytes⟩] [] (by simp)).1⟩

end OpenDDS.Guarantees.HeaderFormat
