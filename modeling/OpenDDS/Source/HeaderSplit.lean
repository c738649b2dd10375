import Mathlib.Data.List.Induction
import OpenDDS.Source.DataSampleHeader

/-!
# Splitting a message

`DataSampleHeader::split` and `split_payload` (dds/DCPS/DataSampleHeader.cpp). A message is the
chain of its blocks; a block that `alloc_msgblock` returns holds the bytes written to it. Blocks
that the decoding of the header has used up are left out of a chain, so `prev` is null when the
first block still has data. Allocation succeeds.
-/
namespace OpenDDS.Source.HeaderSplit
open Library Library.Chain Serializer DataSampleHeader

inductive Undefined where
  /-- A member of a null block is used. -/
  | nullBlock
  /-- An entry is taken from an empty sequence. -/
  | noEntry
  | serializer (fault : Fault)
  deriving DecidableEq

/-- The blocks that the calls of `alloc_msgblock` in one `split` return, by the size asked for. -/
structure Allocator where
  block : Nat → Nat → Block UInt8
  length_block : ∀ call size, (block call size).items.length = size

def splitPayload : List (Block UInt8) → Nat → Except Undefined (List (Block UInt8) × List (Block UInt8))
  | [], _ => .error .nullBlock
  | frag :: cont, fragRemain =>
    if fragRemain > frag.items.length then
      match splitPayload cont (fragRemain - frag.items.length) with
      | .error undefined => .error undefined
      | .ok (head, tail) => .ok (frag :: head, tail)
    else if fragRemain = frag.items.length then .ok ([frag], cont)
    else .ok ([{ frag with items := frag.items.take fragRemain }], frag.drop fragRemain :: cont)

/-- The loop over the blocks without data, up to the payload. -/
def findPayload : List (Block UInt8) → Except Undefined (List (Block UInt8))
  | [] => .error .nullBlock
  | payload :: cont => if payload.items.length = 0 then findPayload cont else .ok (payload :: cont)

/-- The loop that moves entries from the end of the header's into a sequence. -/
def moveEntries : Nat → List GUID → Except Undefined (List GUID × List GUID)
  | 0, hdrEntries => .ok ([], hdrEntries)
  | n + 1, hdrEntries =>
    match hdrEntries.getLast? with
    | none => .error .noEntry
    | some entry =>
      match moveEntries n hdrEntries.dropLast with
      | .error undefined => .error undefined
      | .ok (entries, hdrEntries) => .ok (entry :: entries, hdrEntries)

theorem splitPayload_spec {chain : List (Block UInt8)} {room : Nat}
    (h : room < (contents chain).length) :
    ∃ head tail, splitPayload chain room = .ok (head, tail) ∧
      contents head = (contents chain).take room ∧ contents tail = (contents chain).drop room ∧
      tail ≠ [] := by
  induction chain generalizing room with
  | nil => exact absurd h (Nat.not_lt_zero room)
  | cons frag cont ih =>
    simp only [contents_cons, List.length_append] at h ⊢
    by_cases hmore : room > frag.items.length
    · have hle : frag.items.length ≤ room := Nat.le_of_lt hmore
      obtain ⟨head, tail, hsplit, hhead, htail, hne⟩ :=
        ih (show room - frag.items.length < (contents cont).length by omega)
      refine ⟨frag :: head, tail, ?_, ?_, ?_, hne⟩
      · simp only [splitPayload, if_pos hmore, hsplit]
      · rw [contents_cons, hhead, List.take_append, List.take_of_length_le hle]
      · rw [htail, List.drop_append, List.drop_eq_nil_of_le hle, List.nil_append]
    · by_cases hboundary : room = frag.items.length
      · refine ⟨[frag], cont, ?_, ?_, ?_, ?_⟩
        · simp only [splitPayload, if_neg hmore, if_pos hboundary]
        · rw [contents_cons, contents_nil, List.append_nil, List.take_left' hboundary.symm]
        · rw [List.drop_left' hboundary.symm]
        · rintro rfl
          simp at h
          omega
      · refine ⟨[{ frag with items := frag.items.take room }], frag.drop room :: cont, ?_, ?_, ?_,
          List.cons_ne_nil _ _⟩
        · simp only [splitPayload, if_neg hmore, if_neg hboundary]
        · rw [contents_cons, contents_nil, List.append_nil,
            List.take_append_of_le_length (by omega)]
        · rw [contents_cons, Block.drop, List.drop_append_of_le_length (by omega)]

theorem findPayload_spec {chain : List (Block UInt8)} (h : contents chain ≠ []) :
    ∃ payload, findPayload chain = .ok payload ∧ contents payload = contents chain := by
  induction chain with
  | nil => exact absurd rfl h
  | cons b cont ih =>
    by_cases hempty : b.items.length = 0
    · rw [contents_cons, List.length_eq_zero_iff.mp hempty, List.nil_append] at h ⊢
      obtain ⟨payload, hfind, hcontents⟩ := ih h
      exact ⟨payload, by simp only [findPayload, if_pos hempty, hfind], hcontents⟩
    · exact ⟨b :: cont, by simp only [findPayload, if_neg hempty], rfl⟩

theorem moveEntries_spec (front : List GUID) (back : List GUID) :
    moveEntries back.length (front ++ back) = .ok (back.reverse, front) := by
  induction back using List.reverseRecOn with
  | nil => rw [List.append_nil]; rfl
  | append_singleton back entry ih =>
    have hlast : (front ++ (back ++ [entry])).getLast? = some entry := by
      rw [← List.append_assoc, List.getLast?_concat]
    have hinit : (front ++ (back ++ [entry])).dropLast = front ++ back := by
      rw [← List.append_assoc, List.dropLast_concat]
    rw [List.length_append, List.length_singleton]
    simp only [moveEntries, hlast, hinit, ih, List.reverse_append, List.reverse_singleton,
      List.singleton_append]

variable (host : ByteOrder) (alloc : Allocator)

/-- `alloc_msgblock` and the insertion of a header. -/
def headerBlock (call : Nat) (hdr : Header) : Except Undefined (Block UInt8) :=
  let memory := alloc.block call maxMarshaledSize
  match marshal host memory hdr with
  | .error fault => .error (.serializer fault)
  | .ok w => .ok { memory with items := w.written }

/-- The block that `add_cfentries` chains behind a header. -/
def entriesBlock (call : Nat) (guids : List GUID) (mb : Block UInt8) :
    Except Undefined (Block UInt8) :=
  let memory := alloc.block call (guidSeqSize guids)
  match addCfentries host guids mb.items memory with
  | .error fault => .error (.serializer fault)
  | .ok optHdr => .ok { memory with items := optHdr.written }

/-- A header in front of a payload, with its entries in between if its flag is set. -/
def withHeader (call : Nat) (hdr : Header) (payload : List (Block UInt8)) :
    Except Undefined (List (Block UInt8)) :=
  match headerBlock host alloc call hdr with
  | .error undefined => .error undefined
  | .ok mb =>
    if hdr.contentFilter then
      match entriesBlock host alloc (call + 1) hdr.contentFilterEntries mb with
      | .error undefined => .error undefined
      | .ok optHdr => .ok (mb :: optHdr :: payload)
    else .ok (mb :: payload)

/-- The difference of two values of type `size_t`. -/
def sizeSub (x y : Nat) : Nat := (x + 2 ^ 64 - y) % 2 ^ 64

/-- The branch of `split` where the entries do not fit, once `head` is marshaled and `nEntries`
is known. -/
def moveToHead (hdr : Header) (payload : List (Block UInt8)) (head : Block UInt8) (nEntries : Nat) :
    Except Undefined (List (Block UInt8) × List (Block UInt8)) :=
  match moveEntries nEntries hdr.contentFilterEntries with
  | .error undefined => .error undefined
  | .ok (entries, hdrEntries) =>
    match entriesBlock host alloc 1 entries head with
    | .error undefined => .error undefined
    | .ok optHdr =>
      match withHeader host alloc 2
          { hdr with moreFragments := false
                     contentFilterEntries := hdrEntries
                     contentFilter := hdrEntries.length > 0
                     messageLength := BitVec.ofNat 32 (totalLength payload) } payload with
      | .error undefined => .error undefined
      | .ok tail => .ok ([head, optHdr], tail)

/-- The branch of `split` where the entries do not fit in `size` bytes. -/
def splitEntries (hdr : Header) (payload : List (Block UInt8)) (size : Nat) :
    Except Undefined (List (Block UInt8) × List (Block UInt8)) :=
  match headerBlock host alloc 0 { hdr with moreFragments := true, messageLength := 0 } with
  | .error undefined => .error undefined
  | .ok head =>
    let avail := sizeSub (sizeSub size head.items.length) 4
    moveToHead host alloc hdr payload head (avail / 16 % 2 ^ 32)

/-- The branch of `split` where `room` bytes of payload fit behind the header. -/
def splitData (hdr : Header) (payload : List (Block UInt8)) (room : Nat) :
    Except Undefined (List (Block UInt8) × List (Block UInt8)) :=
  match splitPayload payload room with
  | .error undefined => .error undefined
  | .ok (payload, payloadTail) =>
    match withHeader host alloc 0
        { hdr with moreFragments := true
                   messageLength := BitVec.ofNat 32 (totalLength payload) } payload with
    | .error undefined => .error undefined
    | .ok head =>
      if payloadTail = [] then .error .nullBlock
      else
        match withHeader host alloc 2
            { hdr with moreFragments := false
                       contentFilter := false
                       messageLength := BitVec.ofNat 32 (totalLength payloadTail) } payloadTail with
        | .error undefined => .error undefined
        | .ok tail => .ok (head, tail)

def split (orig : List (Block UInt8)) (size : Nat) :
    Except Undefined (List (Block UInt8) × List (Block UInt8)) :=
  let length := totalLength orig
  match init host (create host) orig with
  | .error fault => .error (.serializer fault)
  | .ok ⟨hdr, dup⟩ =>
    let hdrLen := length - totalLength dup.current
    match findPayload dup.current with
    | .error undefined => .error undefined
    | .ok payload =>
      match orig with
      | [] => .error .nullBlock
      | first :: _ =>
        if first.items.length > hdrLen then .error .nullBlock
        else if size < hdrLen then splitEntries host alloc hdr payload size
        else splitData host alloc hdr payload (size - hdrLen)

/-- `split` of the tails for as long as a message is longer than `size`, at most `rounds`
times. -/
def splitAll (size : Nat) : Nat → List (Block UInt8) → Except Undefined (List (List (Block UInt8)))
  | 0, orig => .ok [orig]
  | rounds + 1, orig =>
    if totalLength orig ≤ size then .ok [orig]
    else
      match split host alloc orig size with
      | .error undefined => .error undefined
      | .ok (head, tail) =>
        match splitAll size rounds tail with
        | .error undefined => .error undefined
        | .ok pieces => .ok (head :: pieces)

end OpenDDS.Source.HeaderSplit
