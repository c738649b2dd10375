import OpenDDS.Source.SerializerValue

/-!
`OpenDDS::DCPS::DataSampleHeader` (dds/DCPS/DataSampleHeader.{h,inl,cpp}): marshaling
into a message block, the chained content-filter entries, `partial` and `init`. GUIDs and
their sequences are marshaled by the code that opendds_idl generates from
dds/DdsDcpsGuid.idl (dds/idl/marshal_generator.cpp): octet arrays of twelve and three, an
octet, and for a sequence its length in front.

The reserved bits are not marshaled and left out. `host` is `ACE_CDR_BYTE_ORDER`.
-/
namespace OpenDDS.Source.DataSampleHeader
open Library Library.Chain Serializer

structure GUID where
  guidPrefix : Vector (BitVec 8) 12
  entityKey : Vector (BitVec 8) 3
  entityKind : BitVec 8
  deriving DecidableEq

structure Header where
  messageId : BitVec 8
  submessageId : BitVec 8
  byteOrder : Bool
  coherentChange : Bool
  historicSample : Bool
  lifespanDuration : Bool
  groupCoherent : Bool
  contentFilter : Bool
  sequenceRepair : Bool
  moreFragments : Bool
  cdrEncapsulation : Bool
  keyFieldsOnly : Bool
  messageLength : BitVec 32
  sequenceHigh : BitVec 32
  sequenceLow : BitVec 32
  sourceTimestampSec : BitVec 32
  sourceTimestampNanosec : BitVec 32
  lifespanDurationSec : BitVec 32
  lifespanDurationNanosec : BitVec 32
  publicationId : GUID
  publisherId : GUID
  contentFilterEntries : List GUID
  marshaledSize : Nat

def messageIdMax : Nat := 12

def submessageIdMax : Nat := 5

def flagsOffset : Nat := 2

/-- The bits of `DataSampleHeaderFlag` in the first flags octet. -/
def byteOrderFlag : Nat := 0
def coherentChangeFlag : Nat := 1
def historicSampleFlag : Nat := 2
def lifespanDurationFlag : Nat := 3
def groupCoherentFlag : Nat := 4
def contentFilterFlag : Nat := 5
def sequenceRepairFlag : Nat := 6
def moreFragmentsFlag : Nat := 7

/-- The bits of `DataSampleHeaderFlag2` in the second flags octet. -/
def cdrEncapFlag : Nat := 0
def keyOnlyFlag : Nat := 1

def maskFlag (flag : Nat) : BitVec 8 := 1#8 <<< flag

def flagBit (value : Bool) (flag : Nat) : BitVec 8 := (if value then 1#8 else 0#8) <<< flag

/-- The conversion of `octet & mask_flag(flag)` to `bool`. -/
def hasFlag (octet : BitVec 8) (flag : Nat) : Bool := octet &&& maskFlag flag != 0

def Header.flags (h : Header) : BitVec 8 :=
  flagBit h.byteOrder byteOrderFlag ||| flagBit h.coherentChange coherentChangeFlag |||
  flagBit h.historicSample historicSampleFlag ||| flagBit h.lifespanDuration lifespanDurationFlag |||
  flagBit h.groupCoherent groupCoherentFlag ||| flagBit h.contentFilter contentFilterFlag |||
  flagBit h.sequenceRepair sequenceRepairFlag ||| flagBit h.moreFragments moreFragmentsFlag

def Header.flags2 (h : Header) : BitVec 8 :=
  flagBit h.cdrEncapsulation cdrEncapFlag ||| flagBit h.keyFieldsOnly keyOnlyFlag

def maxMarshaledSize : Nat := 1 + 1 + 2 + 4 + 8 + 4 + 4 + 4 + 4 + 16 + 16

section

def octetArray {n : Nat} (octets : Vector (BitVec 8) n) (h : n < 2 ^ 32) : Value :=
  .array .octet octets.toList (Nat.lt_of_le_of_lt (Nat.le_of_eq octets.length_toList) h)

def guidValues (guid : GUID) : List Value :=
  [octetArray guid.guidPrefix (by decide), octetArray guid.entityKey (by decide),
    .primitive .octet guid.entityKind]

def guidSeqValues (guids : List GUID) : List Value :=
  .primitive .ulong (BitVec.ofNat 32 guids.length) :: guids.flatMap guidValues

/-- The insertions of `operator<<`; the content-filter entries are not among them. -/
def Header.values (h : Header) : List Value :=
  [.primitive .char h.messageId, .primitive .char h.submessageId, .primitive .octet h.flags,
    .primitive .octet h.flags2, .primitive .ulong h.messageLength, .primitive .long h.sequenceHigh,
    .primitive .ulong h.sequenceLow, .primitive .long h.sourceTimestampSec,
    .primitive .ulong h.sourceTimestampNanosec] ++
  (if h.lifespanDuration then
    [.primitive .long h.lifespanDurationSec, .primitive .ulong h.lifespanDurationNanosec] else []) ++
  guidValues h.publicationId ++
  if h.groupCoherent then guidValues h.publisherId else []

variable (host : ByteOrder)

/-- `ACE_CDR_BYTE_ORDER`: one on little-endian hosts. -/
def aceCdrByteOrder : Bool := host == .littleEndian

/-- The constructor, with `GUID_UNKNOWN` and the first sequence number. -/
def create : Header where
  messageId := 0
  submessageId := 0
  byteOrder := aceCdrByteOrder host
  coherentChange := false
  historicSample := false
  lifespanDuration := false
  groupCoherent := false
  contentFilter := false
  sequenceRepair := false
  moreFragments := false
  cdrEncapsulation := false
  keyFieldsOnly := false
  messageLength := 0
  sequenceHigh := 0
  sequenceLow := 1
  sourceTimestampSec := 0
  sourceTimestampNanosec := 0
  lifespanDurationSec := 0
  lifespanDurationNanosec := 0
  publicationId := ⟨Vector.replicate 12 0, Vector.replicate 3 0, 0⟩
  publisherId := ⟨Vector.replicate 12 0, Vector.replicate 3 0, 0⟩
  contentFilterEntries := []
  marshaledSize := 0

/-- `operator<<` into a buffer. -/
def marshal (buffer : Block UInt8) (h : Header) : Except Fault Writer :=
  (Writer.ofChain [buffer] (h.byteOrder != aceCdrByteOrder host) .none).insertAll host h.values

/-- `test_flag`, with the octets from the base of the buffer; a short buffer has no flags. -/
def testFlag (flag : Nat) (base : List UInt8) : Bool :=
  match base[flagsOffset]? with
  | none => false
  | some octet => hasFlag octet.toBitVec flag

/-- `gen_find_size` of a sequence of GUIDs. -/
def guidSeqSize (guids : List GUID) : Nat := 4 + 16 * guids.length

/-- `add_cfentries`: what the block chained behind the header holds. `memory` is the block
that `alloc_msgblock` returns. -/
def addCfentries (guids : List GUID) (base : List UInt8) (memory : Block UInt8) :
    Except Fault Writer :=
  (Writer.ofChain [memory] (aceCdrByteOrder host != testFlag byteOrderFlag base) .none).insertAll
    host (guidSeqValues guids)

end

section

variable (host : ByteOrder)

/-- The header being filled and the serializer it is filled from. -/
structure Decoding where
  header : Header
  reader : Reader

/-- A field as `init` reads it: its extractions, its size and where it is stored. -/
structure Field where
  extractions : List Extraction
  size : Nat
  store : List Datum → Header → Header

/-- One field of `init`, which returns at the first failure. -/
def readField (field : Field) (d : Decoding) : Except Fault Decoding :=
  if d.reader.goodBit then
    match d.reader.extractAll host field.extractions with
    | .error fault => .error fault
    | .ok (xs, r) =>
      if r.goodBit then
        .ok { header := field.store xs
                { d.header with marshaledSize := d.header.marshaledSize + field.size }
              reader := r }
      else .ok { d with reader := r }
  else .ok d

def readFields : List Field → Decoding → Except Fault Decoding
  | [], d => .ok d
  | field :: fields, d =>
    match readField host field d with
    | .error fault => .error fault
    | .ok d => readFields fields d

def octetsOf (n : Nat) (xs : List (BitVec 8)) : Vector (BitVec 8) n :=
  Vector.ofFn fun i => xs.getD i 0

def guidOf : List Datum → Option GUID
  | [.array .octet guidPrefix, .array .octet entityKey, .primitive .octet entityKind] =>
    some { guidPrefix := octetsOf 12 guidPrefix
           entityKey := octetsOf 3 entityKey
           entityKind := entityKind }
  | _ => none

def charField (store : BitVec 8 → Header → Header) : Field :=
  { extractions := [.primitive .char]
    size := 1
    store := fun
      | [.primitive .char x] => store x
      | _ => id }

def octetField (store : BitVec 8 → Header → Header) : Field :=
  { extractions := [.primitive .octet]
    size := 1
    store := fun
      | [.primitive .octet x] => store x
      | _ => id }

def ulongField (store : BitVec 32 → Header → Header) : Field :=
  { extractions := [.primitive .ulong]
    size := 4
    store := fun
      | [.primitive .ulong x] => store x
      | _ => id }

def longField (store : BitVec 32 → Header → Header) : Field :=
  { extractions := [.primitive .long]
    size := 4
    store := fun
      | [.primitive .long x] => store x
      | _ => id }

/-- `operator>>` of a sequence number. -/
def sequenceField : Field :=
  { extractions := [.primitive .long, .primitive .ulong]
    size := 8
    store := fun
      | [.primitive .long high, .primitive .ulong low] =>
        fun h => { h with sequenceHigh := high, sequenceLow := low }
      | _ => id }

def guidExtractions : List Extraction := [.array .octet 12, .array .octet 3, .primitive .octet]

def guidField (store : GUID → Header → Header) : Field :=
  { extractions := guidExtractions
    size := 16
    store := fun xs =>
      match guidOf xs with
      | some guid => store guid
      | none => id }

def storeFlags (octet : BitVec 8) (h : Header) : Header :=
  { h with byteOrder := hasFlag octet byteOrderFlag
           coherentChange := hasFlag octet coherentChangeFlag
           historicSample := hasFlag octet historicSampleFlag
           lifespanDuration := hasFlag octet lifespanDurationFlag
           groupCoherent := hasFlag octet groupCoherentFlag
           contentFilter := hasFlag octet contentFilterFlag
           sequenceRepair := hasFlag octet sequenceRepairFlag
           moreFragments := hasFlag octet moreFragmentsFlag }

def storeFlags2 (octet : BitVec 8) (h : Header) : Header :=
  { h with cdrEncapsulation := hasFlag octet cdrEncapFlag
           keyFieldsOnly := hasFlag octet keyOnlyFlag }

/-- The fields up to the first flags octet, read byte by byte. -/
def idFields : List Field :=
  [charField fun x h => { h with messageId := x }, charField fun x h => { h with submessageId := x },
    octetField storeFlags]

def fixedFields : List Field :=
  [octetField storeFlags2, ulongField fun x h => { h with messageLength := x }, sequenceField,
    longField fun x h => { h with sourceTimestampSec := x },
    ulongField fun x h => { h with sourceTimestampNanosec := x }]

def lifespanFields : List Field :=
  [longField fun x h => { h with lifespanDurationSec := x },
    ulongField fun x h => { h with lifespanDurationNanosec := x }]

/-- The fields behind the fixed ones that the flags make present. -/
def optionalFields (h : Header) : List Field :=
  (if h.lifespanDuration then lifespanFields else []) ++
  [guidField fun guid h => { h with publicationId := guid }] ++
  if h.groupCoherent then [guidField fun guid h => { h with publisherId := guid }] else []

/-- The element loop of `operator>>` of a sequence of GUIDs. -/
def readGuids : Nat → Reader → Except Fault (List GUID × Reader)
  | 0, r => .ok ([], r)
  | length + 1, r =>
    match r.extractAll host guidExtractions with
    | .error fault => .error fault
    | .ok (xs, r) =>
      if r.goodBit then
        match readGuids length r with
        | .error fault => .error fault
        | .ok (guids, r) => .ok ((guidOf xs).toList ++ guids, r)
      else .ok ([], r)

/-- `reader >> this->content_filter_entries_`. -/
def readEntries (d : Decoding) : Except Fault Decoding :=
  if d.reader.goodBit then
    match d.reader.readPrimitive host .ulong with
    | .error fault => .error fault
    | .ok (length, r) =>
      if r.goodBit then
        match readGuids host length.toNat r with
        | .error fault => .error fault
        | .ok (guids, r) =>
          if r.goodBit then
            .ok { header := { d.header with
                    contentFilterEntries := guids
                    marshaledSize := d.header.marshaledSize + guidSeqSize guids }
                  reader := r }
          else .ok { d with reader := r }
      else .ok { d with reader := r }
  else .ok d

/-- `init` of the header `h` from a chain. -/
def init (h : Header) (buffer : List (Block UInt8)) : Except Fault Decoding :=
  match readFields host idFields
      { header := { h with marshaledSize := 0 }, reader := Reader.ofChain buffer false .none } with
  | .error fault => .error fault
  | .ok d =>
    match readFields host fixedFields { d with reader :=
        { d.reader with swapBytes := d.header.byteOrder != aceCdrByteOrder host } } with
    | .error fault => .error fault
    | .ok d =>
      match readFields host (optionalFields d.header) d with
      | .error fault => .error fault
      | .ok d => if d.header.contentFilter then readEntries host d else .ok d

/-- `mb_peek`: the chain from `offset` on, given to `copy` when a block holds that byte. -/
def mbPeek {α : Type} (copy : List (Block UInt8) → Option α) :
    List (Block UInt8) → Nat → Option α
  | [], _ => none
  | b :: rest, offset =>
    if b.items.length > offset then copy (b.drop offset :: rest)
    else mbPeek copy rest (offset - b.items.length)

def mbCopyChar (chain : List (Block UInt8)) : Option (BitVec 8) :=
  (contents chain).head?.map UInt8.toBitVec

/-- `mb_copy` of the other types. -/
def mbCopy (size : Nat) (swap : Bool) (chain : List (Block UInt8)) : Option Nat :=
  if totalLength chain < size then none
  else some (host.ofBytes ((Reader.ofChain chain swap .none).bufferRead size swap).1)

/-- The size of a header with these flags, up to the content-filter entries. -/
def expectedSize (flags : BitVec 8) : Nat :=
  maxMarshaledSize - (if hasFlag flags lifespanDurationFlag then 0 else 8) -
    if hasFlag flags groupCoherentFlag then 0 else 16

/-- `DataSampleHeader::partial`; an invalid id counts as a header that is not complete. -/
def isPartial (mb : List (Block UInt8)) : Bool :=
  let len := totalLength mb
  if len ≤ flagsOffset then true
  else
    match mbPeek (mbCopy host 1 false) mb 0 with
    | none => true
    | some messageId =>
      if messageId ≥ messageIdMax then true
      else
        match mbPeek (mbCopy host 1 false) mb 1 with
        | none => true
        | some submessageId =>
          if submessageId ≥ submessageIdMax then true
          else
            match mbPeek mbCopyChar mb flagsOffset with
            | none => true
            | some flags =>
              if hasFlag flags contentFilterFlag then
                match mbPeek (mbCopy host 4 (hasFlag flags byteOrderFlag != aceCdrByteOrder host)) mb
                    (expectedSize flags) with
                | none => true
                | some seqLen => len < expectedSize flags + (4 + 16 * seqLen)
              else len < expectedSize flags

end

end OpenDDS.Source.DataSampleHeader
