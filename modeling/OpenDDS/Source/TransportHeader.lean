import OpenDDS.Source.DataSampleHeader

/-!
`OpenDDS::DCPS::TransportHeader` (dds/DCPS/transport/framework/TransportHeader.{h,inl,cpp}):
the header of a transport packet, with the length of what follows it.
-/
namespace OpenDDS.Source.TransportHeader
open Library Library.Chain Serializer
open DataSampleHeader (octetArray octetsOf flagBit hasFlag aceCdrByteOrder)

structure Header where
  protocol : Vector (BitVec 8) 6
  byteOrder : Bool
  firstFragment : Bool
  lastFragment : Bool
  reserved : BitVec 8
  length : BitVec 32
  sequenceHigh : BitVec 32
  sequenceLow : BitVec 32
  source : BitVec 32

/-- `DCPS_PROTOCOL`, with the version. -/
def dcpsProtocol : Vector (BitVec 8) 6 := #v[0x44, 0x43, 0x50, 0x53, 0x02, 0x00]

def byteOrderFlag : Nat := 0
def firstFragmentFlag : Nat := 1
def lastFragmentFlag : Nat := 2

def maxMarshaledSize : Nat := 6 + 1 + 1 + 4 + 8 + 4

def Header.valid (h : Header) : Bool := h.protocol = dcpsProtocol

def Header.flags (h : Header) : BitVec 8 :=
  flagBit h.byteOrder byteOrderFlag ||| flagBit h.firstFragment firstFragmentFlag |||
  flagBit h.lastFragment lastFragmentFlag

/-- The insertions of `operator<<` up to the octets that do not depend on the byte order. -/
def Header.octets (h : Header) : List Value :=
  [octetArray h.protocol (by decide), .primitive .octet h.flags, .primitive .octet h.reserved]

def Header.numbers (h : Header) : List Value :=
  [.primitive .ulong h.length, .primitive .long h.sequenceHigh, .primitive .ulong h.sequenceLow,
    .primitive .long h.source]

variable (host : ByteOrder)

def create : Header where
  protocol := dcpsProtocol
  byteOrder := aceCdrByteOrder host
  firstFragment := false
  lastFragment := false
  reserved := 0
  length := 0
  sequenceHigh := 0
  sequenceLow := 1
  source := 0

/-- `operator<<` into a buffer, which does not swap. -/
def marshal (buffer : Block UInt8) (h : Header) : Except Fault Writer :=
  (Writer.ofChain [buffer] false .none).insertAll host (h.octets ++ h.numbers)

def octetExtractions : List Extraction := [.array .octet 6, .primitive .octet, .primitive .octet]

def numberExtractions : List Extraction :=
  [.primitive .ulong, .primitive .long, .primitive .ulong, .primitive .long]

def storeOctets : List Datum → Header → Header
  | [.array .octet protocol, .primitive .octet flags, .primitive .octet reserved], h =>
    { h with
      protocol := octetsOf 6 protocol
      byteOrder := hasFlag flags byteOrderFlag
      firstFragment := hasFlag flags firstFragmentFlag
      lastFragment := hasFlag flags lastFragmentFlag
      reserved }
  | _, h => h

def storeNumbers : List Datum → Header → Header
  | [.primitive .ulong length, .primitive .long sequenceHigh, .primitive .ulong sequenceLow,
      .primitive .long source], h => { h with length, sequenceHigh, sequenceLow, source }
  | _, h => h

/-- `init` of the header `h` from a chain. -/
def init (h : Header) (buffer : List (Block UInt8)) : Except Fault (Header × Reader) :=
  match (Reader.ofChain buffer false .none).extractAll host octetExtractions with
  | .error fault => .error fault
  | .ok (octets, reader) =>
    let h := storeOctets octets h
    match { reader with swapBytes := h.byteOrder != aceCdrByteOrder host }.extractAll host
        numberExtractions with
    | .error fault => .error fault
    | .ok (numbers, reader) => .ok (storeNumbers numbers h, reader)

end OpenDDS.Source.TransportHeader
