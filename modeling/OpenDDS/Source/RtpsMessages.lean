import OpenDDS.Source.BitmapInsert

/-!
The RTPS submessages of the reliability protocol, reduced to the fields that
`RtpsUdpDataLink` reads (dds/DCPS/RTPS/RtpsMessageTypes.idl), and the size of their
bitmaps. Counts are `CORBA::Long`, flags the octet of the submessage header.
-/
namespace OpenDDS.Source.RtpsMessages
open DisjointSequence

/-- `RTPS::SequenceNumberSet`, as the deserializer accepts it: at most eight words. -/
structure SequenceNumberSet where
  bitmapBase : SequenceNumber_t
  numBits : Nat
  bitmap : Bitmap
  numBits_le : numBits ≤ 256

structure GapSubmessage where
  gapStart : SequenceNumber_t
  gapList : SequenceNumberSet

structure HeartBeatSubmessage where
  flags : BitVec 8
  firstSN : SequenceNumber_t
  lastSN : SequenceNumber_t
  count : Int

structure HeartBeatFragSubmessage where
  writerSN : SequenceNumber_t
  lastFragmentNum : Nat
  count : Int

/-- `bitmap_num_longs`. -/
def bitmapNumLongs (low high : Int) : Nat := min 8 (toULong ((high - low + 32).tdiv 32))

end OpenDDS.Source.RtpsMessages
