import OpenDDS.Library.ByteOrder
import OpenDDS.Library.Chain

/-!
The extracting half of `OpenDDS::DCPS::Serializer` (dds/DCPS/Serializer.{h,inl,cpp}).
A chain of message blocks is the list of its blocks from `current_` on, each with the
address of its read pointer and the bytes up to its write pointer; the empty list is a
null `current_`. Addresses are natural numbers: `size_t` arithmetic wraps at a multiple
of every alignment, so only remainders matter.

Following a null `current_` is undefined and ends an operation with a `Fault`. What an
unfinished read leaves in its destination is not modelled (zeros stand there), and
memory allocation succeeds.
-/
namespace OpenDDS.Source.Serializer
open Library Library.Chain

/-- `ALIGN_NONE`, `ALIGN_INITIALIZE` (padding is zeroed) and `ALIGN_CDR`. -/
inductive Alignment where
  | none
  | initialized
  | cdr
  deriving DecidableEq, Repr

def maxAlign : Nat := 8

inductive Fault where
  /-- A member of a null `current_` was used. -/
  | nullCurrent
  deriving DecidableEq, Repr

/-- The types that are copied as their object representation. -/
inductive Primitive where
  | boolean | char | octet | short | ushort | long | ulong | longlong | ulonglong
  | float | double | longdouble
  deriving DecidableEq, Repr

/-- `sizeof`. -/
def Primitive.size : Primitive → Nat
  | boolean | char | octet => 1
  | short | ushort => 2
  | long | ulong | float => 4
  | longlong | ulonglong | double => 8
  | longdouble => 16

/-- The argument of `align_r` and `align_w`; a long double is aligned to eight. -/
def Primitive.align (t : Primitive) : Nat := min t.size maxAlign

structure Reader where
  current : List (Block UInt8)
  swapBytes : Bool
  goodBit : Bool
  alignment : Alignment
  alignRshift : Nat

def Reader.ofChain (chain : List (Block UInt8)) (swapBytes : Bool) (align : Alignment) : Reader :=
  { current := chain
    swapBytes := swapBytes
    goodBit := true
    alignment := align
    alignRshift := match chain with
      | [] => 0
      | b :: _ => b.address % maxAlign }

/-- The shift that keeps the position behind the last block at the address `next`. -/
def shiftAt (address shift next : Nat) : Nat :=
  (((next : Int) - ((address : Int) - shift) % maxAlign) % maxAlign).toNat

def Reader.alignContR (r : Reader) : Reader :=
  match r.current with
  | [] => r
  | [_] => { r with current := [] }
  | b :: next :: rest =>
    { r with current := next :: rest, alignRshift := shiftAt b.address r.alignRshift next.address }

/-- `bytes` written over `dest` from `offset` on. -/
def splice (dest : List UInt8) (offset : Nat) (bytes : List UInt8) : List UInt8 :=
  dest.take offset ++ bytes ++ dest.drop (offset + bytes.length)

/-- Leaving a spent block in `doread`. -/
def Reader.leaveBlock (r : Reader) : Reader :=
  if r.alignment = .none then { r with current := r.current.tail } else r.alignContR

/-- `doread`: the destination, the offset reached and the serializer. `swapcpy` copies at
most sixteen bytes. -/
def Reader.doread (r : Reader) (dest : List UInt8) (size : Nat) (swap : Bool) (offset : Nat) :
    List UInt8 × Nat × Reader :=
  match r.current with
  | [] => (dest, size, { r with goodBit := false })
  | b :: rest =>
    let remainder := if size - offset > b.items.length then size - offset - b.items.length else 0
    let initial := size - offset - remainder
    let bytes := b.items.take initial
    let copied := if swap then
        if initial ≤ 16 then splice dest remainder bytes.reverse else dest
      else splice dest offset bytes
    let goodBit := r.goodBit && (!swap || initial ≤ 16)
    let r := { r with current := b.drop initial :: rest, goodBit := goodBit }
    (copied, offset + initial, if (b.drop initial).items.isEmpty then r.leaveBlock else r)

/-- The loop of `buffer_read`. Each round but the last leaves a block, so a round for
each block and one for the end of the chain are enough. -/
def Reader.bufferReadLoop (size : Nat) (swap : Bool) :
    Nat → Reader → List UInt8 → Nat → List UInt8 × Reader
  | 0, r, dest, _ => (dest, r)
  | rounds + 1, r, dest, offset =>
    if size > offset then
      let res := r.doread dest size swap offset
      bufferReadLoop size swap rounds res.2.2 res.1 res.2.1
    else (dest, r)

def Reader.bufferRead (r : Reader) (size : Nat) (swap : Bool) : List UInt8 × Reader :=
  bufferReadLoop size swap (r.current.length + 1) r (List.replicate size 0) 0

def Reader.skipLoop : Nat → Reader → Nat → Reader
  | 0, r, _ => r
  | rounds + 1, r, len =>
    if len = 0 then r
    else
      match r.current with
      | [] => { r with goodBit := false }
      | b :: rest =>
        if b.items.length ≤ len then
          skipLoop rounds
            ({ r with current := b.drop b.items.length :: rest } : Reader).alignContR
            (len - b.items.length)
        else { r with current := b.drop len :: rest }

def Reader.skipBytes (r : Reader) (len : Nat) : Reader := r.skipLoop (r.current.length + 1) len

/-- `align_r`, which reads the address of the current block before it looks for one. -/
def Reader.alignR (r : Reader) (al : Nat) : Except Fault Reader :=
  match r.current with
  | [] => .error .nullCurrent
  | b :: _ => .ok (r.skipBytes (((al : Int) - b.address + r.alignRshift) % al).toNat)

/-- Alignment in front of a value; single octets are not aligned. -/
def Reader.alignFor (r : Reader) (al : Nat) : Except Fault Reader :=
  if al ≤ 1 ∨ r.alignment = .none then .ok r else r.alignR al

def Reader.skip (r : Reader) (n size : Nat) : Except Fault Reader :=
  match r.alignFor (min size maxAlign) with
  | .error fault => .error fault
  | .ok r => .ok (r.skipBytes (n * size))

/-- The element loop of `read_array`. -/
def Reader.readElements (size : Nat) : Nat → Reader → List UInt8 × Reader
  | 0, r => ([], r)
  | length + 1, r =>
    let first := r.bufferRead size true
    let rest := readElements size length first.2
    (first.1 ++ rest.1, rest.2)

/-- `read_array`: the bytes stored at the destination. -/
def Reader.readArray (r : Reader) (size length : Nat) (swap : Bool) : List UInt8 × Reader :=
  if !swap || size = 1 then r.bufferRead (size * length) false
  else readElements size length r

def totalLength (chain : List (Block UInt8)) : Nat := (contents chain).length

/-- The octet is read and written without a swap. -/
def Primitive.swap (t : Primitive) (swapBytes : Bool) : Bool :=
  match t with
  | octet => false
  | _ => swapBytes

section

variable (host : ByteOrder)

/-- The extraction operators of the primitive types. -/
def Reader.readPrimitive (r : Reader) (t : Primitive) :
    Except Fault (BitVec (8 * t.size) × Reader) :=
  match r.alignFor t.align with
  | .error fault => .error fault
  | .ok r =>
    let read := r.bufferRead t.size (t.swap r.swapBytes)
    .ok (BitVec.ofNat _ (host.ofBytes read.1), read.2)

/-- The elements of an array given by its object representation. -/
def elements (size : Nat) : Nat → List UInt8 → List (BitVec (8 * size))
  | 0, _ => []
  | length + 1, bytes =>
    BitVec.ofNat _ (host.ofBytes (bytes.take size)) :: elements size length (bytes.drop size)

/-- `read_short_array` and its siblings. -/
def Reader.readPrimitiveArray (r : Reader) (t : Primitive) (length : Nat) :
    Except Fault (List (BitVec (8 * t.size)) × Reader) :=
  match r.alignFor t.align with
  | .error fault => .error fault
  | .ok r =>
    let read := r.readArray t.size length r.swapBytes
    .ok (elements host t.size length read.1, read.2)

/-- What the two `read_string` functions share: the length prefix, the comparison with what
the chain holds, and the characters, read by `read`. A prefix beyond the end of the chain
leaves `good_bit_` alone. -/
def Reader.readCounted {α : Type} (r : Reader) (read : Nat → Reader → α × Reader) :
    Except Fault (Option α × Reader) :=
  match r.alignFor Primitive.ulong.align with
  | .error fault => .error fault
  | .ok r =>
    let prefixed := r.bufferRead Primitive.ulong.size r.swapBytes
    if prefixed.2.goodBit then
      if prefixed.2.current.isEmpty then .error .nullCurrent
      else if host.ofBytes prefixed.1 ≤ totalLength prefixed.2.current then
        let chars := read (host.ofBytes prefixed.1) prefixed.2
        .ok (if chars.2.goodBit then some chars.1 else none, chars.2)
      else .ok (none, prefixed.2)
    else .ok (none, prefixed.2)

/-- `read_string` of narrow characters: the array it allocates, with the terminator. -/
def Reader.readString (r : Reader) : Except Fault (Option (List UInt8) × Reader) :=
  r.readCounted host fun length r => r.readArray 1 length r.swapBytes

def swapBE : Bool := host == .littleEndian

/-- Extraction of a wide character: its size in octets and then the character. -/
def Reader.readWChar (r : Reader) : Option (BitVec 16) × Reader :=
  let len := r.bufferRead 1 false
  if len.1 = [2] then
    let read := len.2.bufferRead 2 (swapBE host)
    (some (BitVec.ofNat 16 (host.ofBytes read.1)), read.2)
  else (none, { len.2 with goodBit := false })

/-- `read_wchar_array`, which stops at the first failure. -/
def Reader.readWCharArray : Nat → Reader → List (Option (BitVec 16)) × Reader
  | 0, r => ([], r)
  | length + 1, r =>
    let first := r.readWChar host
    if first.2.goodBit then
      let rest := readWCharArray length first.2
      (first.1 :: rest.1, rest.2)
    else ([first.1], first.2)

/-- The character loop of the wide `read_string`. -/
def Reader.readWChars : Nat → Reader → List (BitVec 16) × Reader
  | 0, r => ([], r)
  | length + 1, r =>
    if r.goodBit then
      let first := r.bufferRead 2 (swapBE host)
      let rest := readWChars length first.2
      (BitVec.ofNat 16 (host.ofBytes first.1) :: rest.1, rest.2)
    else ([], r)

/-- `read_string` of wide characters, as on a platform with a wider `wchar_t`. -/
def Reader.readWString (r : Reader) : Except Fault (Option (List (BitVec 16)) × Reader) :=
  r.readCounted host fun bytecount r => r.readWChars host (bytecount / 2)

inductive Extraction where
  | primitive (t : Primitive)
  | array (t : Primitive) (length : BitVec 32)
  | wchar
  | wcharArray (length : BitVec 32)
  | string
  | wstring
  | skip (n : BitVec 16) (t : Primitive)

inductive Datum where
  | primitive (t : Primitive) (x : BitVec (8 * t.size))
  | array (t : Primitive) (xs : List (BitVec (8 * t.size)))
  | wchar (x : Option (BitVec 16))
  | wcharArray (xs : List (Option (BitVec 16)))
  | string (dest : Option (List UInt8))
  | wstring (dest : Option (List (BitVec 16)))
  | skipped

def Reader.extract (r : Reader) : Extraction → Except Fault (Datum × Reader)
  | .primitive t => (r.readPrimitive host t).map fun (x, r) => (.primitive t x, r)
  | .array t length => (r.readPrimitiveArray host t length.toNat).map fun (xs, r) => (.array t xs, r)
  | .wchar => .ok (.wchar (r.readWChar host).1, (r.readWChar host).2)
  | .wcharArray length =>
    .ok (.wcharArray (r.readWCharArray host length.toNat).1, (r.readWCharArray host length.toNat).2)
  | .string => (r.readString host).map fun (dest, r) => (.string dest, r)
  | .wstring => (r.readWString host).map fun (dest, r) => (.wstring dest, r)
  | .skip n t => (r.skip n.toNat t.size).map fun r => (.skipped, r)

def Reader.extractAll : Reader → List Extraction → Except Fault (List Datum × Reader)
  | r, [] => .ok ([], r)
  | r, e :: es =>
    match r.extract host e with
    | .error fault => .error fault
    | .ok (x, r) =>
      match extractAll r es with
      | .error fault => .error fault
      | .ok (xs, r) => .ok (x :: xs, r)

end

end OpenDDS.Source.Serializer
