import OpenDDS.Library.Folds
import OpenDDS.Source.Serializer

/-!
Reading from a chain of blocks as reading from one stream of bytes. Every extraction
moves the reader over a number of bytes (`Advanced`), wherever the chain is cut: the
bytes that remain, the good bit and the position that alignment is computed from depend
on the contents of the chain only.
-/
namespace OpenDDS.Source.Serializer
open Library Library.Chain

/-- The current block is `p` bytes, modulo the largest alignment, behind the start. -/
def Positioned (address shift : Nat) (p : Nat) : Prop :=
  ((address : Int) - shift) % 8 = (p : Int) % 8

/-- The reader stands at position `p` of its stream. -/
def Reader.At (r : Reader) (p : Nat) : Prop :=
  ∀ b ∈ r.current.head?, Positioned b.address r.alignRshift p

/-- `after` is the reader moved over `n` bytes. -/
structure Moved (r after : Reader) (n : Nat) : Prop where
  current : after.current = consume n r.current
  swapBytes : after.swapBytes = r.swapBytes
  alignment : after.alignment = r.alignment
  position : r.alignment ≠ .none → ∀ p, r.At p → after.At (p + n)

/-- The reader is bad after a move over `n` bytes when they were not all there. -/
structure Advanced (r after : Reader) (n : Nat) : Prop extends Moved r after n where
  goodBit : after.goodBit = (r.goodBit && decide (n ≤ (contents r.current).length))

theorem positioned_shiftAt {address shift p : Nat} (next : Nat) (h : Positioned address shift p) :
    Positioned next (shiftAt address shift next) p := by
  unfold Positioned shiftAt maxAlign at *
  omega

theorem positioned_add {address shift p : Nat} (n : Nat) (h : Positioned address shift p) :
    Positioned (address + n) shift (p + n) := by
  unfold Positioned at *
  omega

theorem ofChain_at (chain : List (Block UInt8)) (swapBytes : Bool) (align : Alignment) :
    (Reader.ofChain chain swapBytes align).At 0 := by
  cases chain with
  | nil => simp [Reader.At, Reader.ofChain]
  | cons b rest =>
    simp only [Reader.At, Reader.ofChain, List.head?_cons, Option.mem_some_iff, forall_eq',
      Positioned, maxAlign]
    omega

theorem Moved.refl (r : Reader) : Moved r r 0 :=
  ⟨by simp, rfl, rfl, fun _ p h => by simpa using h⟩

theorem Moved.trans {r mid after : Reader} {n m : Nat} (h₁ : Moved r mid n)
    (h₂ : Moved mid after m) : Moved r after (n + m) := by
  refine ⟨?_, h₂.swapBytes.trans h₁.swapBytes, h₂.alignment.trans h₁.alignment, ?_⟩
  · rw [h₂.current, h₁.current, consume_consume]
  · intro ha p hp
    rw [← Nat.add_assoc]
    exact h₂.position (by rw [h₁.alignment]; exact ha) _ (h₁.position ha p hp)

theorem Moved.contents {r after : Reader} {n : Nat} (h : Moved r after n) :
    Chain.contents after.current = (Chain.contents r.current).drop n := by
  rw [h.current, contents_consume]

namespace Advanced

variable {r mid after : Reader} {n m : Nat}

theorem refl (r : Reader) : Advanced r r 0 := ⟨Moved.refl r, by simp⟩

theorem trans (h₁ : Advanced r mid n) (h₂ : Advanced mid after m) : Advanced r after (n + m) := by
  refine ⟨h₁.toMoved.trans h₂.toMoved, ?_⟩
  rw [h₂.goodBit, h₁.goodBit, h₁.current, contents_consume, List.length_drop, Bool.and_assoc,
    ← Bool.decide_and]
  congr 2
  apply propext
  omega

theorem good (h : Advanced r after n) (hgood : after.goodBit = true) :
    r.goodBit = true ∧ n ≤ (contents r.current).length := by
  rw [h.goodBit] at hgood
  simpa using hgood

theorem good_of_le (h : Advanced r after n) (hgood : r.goodBit = true)
    (hle : n ≤ (contents r.current).length) : after.goodBit = true := by
  rw [h.goodBit]
  simp [hgood, hle]

end Advanced

/-- `moved` is the reader behind the block `b`, which may have been empty. -/
structure BlockLeft (r moved : Reader) (b : Block UInt8) (rest : List (Block UInt8)) : Prop where
  current : moved.current = rest
  goodBit : moved.goodBit = r.goodBit
  swapBytes : moved.swapBytes = r.swapBytes
  alignment : moved.alignment = r.alignment
  position : r.alignment ≠ .none → ∀ p, Positioned b.address r.alignRshift p →
    moved.At (p + b.items.length)

theorem alignContR_left (r : Reader) (b : Block UInt8) (rest : List (Block UInt8)) :
    BlockLeft r (({ r with current := b.drop b.items.length :: rest } : Reader).alignContR)
      b rest := by
  cases rest with
  | nil => exact ⟨rfl, rfl, rfl, rfl, by simp [Reader.alignContR, Reader.At]⟩
  | cons next rest =>
    refine ⟨rfl, rfl, rfl, rfl, fun _ p hp => ?_⟩
    simp only [Reader.alignContR, Reader.At, List.head?_cons, Option.mem_some_iff, forall_eq']
    exact positioned_shiftAt _ (positioned_add _ hp)

theorem leaveBlock_left (r : Reader) (b : Block UInt8) (rest : List (Block UInt8)) :
    BlockLeft r (({ r with current := b.drop b.items.length :: rest } : Reader).leaveBlock)
      b rest := by
  unfold Reader.leaveBlock
  split
  · rename_i h
    exact ⟨rfl, rfl, rfl, rfl, fun ha => absurd h ha⟩
  · exact alignContR_left r b rest

variable {b : Block UInt8} {rest : List (Block UInt8)}

theorem BlockLeft.advanced {r moved after : Reader} {n : Nat} (hcur : r.current = b :: rest)
    (left : BlockLeft r moved b rest) (hpos : 0 < n) (hle : b.items.length ≤ n)
    (adv : Advanced moved after (n - b.items.length)) : Advanced r after n := by
  refine ⟨⟨?_, adv.swapBytes.trans left.swapBytes, adv.alignment.trans left.alignment, ?_⟩, ?_⟩
  · rw [adv.current, left.current, hcur, consume_of_le hpos hle]
  · intro ha p hp
    have hb : Positioned b.address r.alignRshift p := hp b (by simp [hcur])
    have := adv.position (by rw [left.alignment]; exact ha) _ (left.position ha p hb)
    rwa [Nat.add_assoc, Nat.add_sub_cancel' hle] at this
  · rw [adv.goodBit, left.goodBit, left.current, hcur, contents_cons, List.length_append]
    congr 2
    apply propext
    omega

theorem advanced_within {r : Reader} {n : Nat} (hcur : r.current = b :: rest)
    (hlt : n < b.items.length) : Advanced r { r with current := b.drop n :: rest } n := by
  refine ⟨⟨?_, rfl, rfl, fun _ p hp => ?_⟩, ?_⟩
  · rcases Nat.eq_zero_or_pos n with rfl | hpos
    · simp [hcur, Block.drop]
    · rw [hcur, consume_of_lt hpos hlt]
  · have hb : Positioned b.address r.alignRshift p := hp b (by simp [hcur])
    simp only [Reader.At, List.head?_cons, Option.mem_some_iff, forall_eq']
    exact positioned_add n hb
  · have hle : n ≤ b.items.length + (contents rest).length := by omega
    simp [hcur, hle]

theorem advanced_off {r : Reader} (hcur : r.current = []) {n : Nat} (hpos : 0 < n) :
    Advanced r { r with current := [], goodBit := false } n := by
  refine ⟨⟨by simp [hcur], rfl, rfl, fun _ p _ => by simp [Reader.At]⟩, ?_⟩
  have hle : ¬ n ≤ 0 := by omega
  simp [hcur, hle]

theorem skipLoop_advanced (rounds : Nat) (r : Reader) (len : Nat)
    (h : r.current.length < rounds) : Advanced r (Reader.skipLoop rounds r len) len := by
  induction rounds generalizing r len with
  | zero => omega
  | succ rounds ih =>
    unfold Reader.skipLoop
    split
    · rename_i hzero
      subst hzero
      exact Advanced.refl r
    · rename_i hne
      cases hcur : r.current with
      | nil => exact advanced_off hcur (Nat.pos_of_ne_zero hne)
      | cons b rest =>
        simp only
        split
        · rename_i hle
          have left := alignContR_left r b rest
          apply left.advanced hcur (by omega) hle
          apply ih
          rw [left.current]
          simp only [hcur, List.length_cons] at h
          omega
        · rename_i hlt
          exact advanced_within hcur (Nat.lt_of_not_le hlt)

theorem skipBytes_advanced (r : Reader) (len : Nat) : Advanced r (r.skipBytes len) len :=
  skipLoop_advanced _ r len (by omega)

/-- What a round of `buffer_read` copies from the block `b`. -/
def copied (dest : List UInt8) (size : Nat) (swap : Bool) (offset : Nat) (b : Block UInt8) :
    List UInt8 :=
  if swap then splice dest (size - offset - b.items.length) (b.items.take (size - offset)).reverse
  else splice dest offset (b.items.take (size - offset))

variable {swap : Bool} {size offset : Nat}

theorem doread_within {r : Reader} (dest : List UInt8) (hcur : r.current = b :: rest)
    (hoffset : offset ≤ size) (hswap : swap = true → size ≤ 16)
    (hlt : size - offset < b.items.length) : r.doread dest size swap offset =
      (copied dest size swap offset b, size,
        { r with current := b.drop (size - offset) :: rest }) := by
  have hremainder : ¬ size - offset > b.items.length := by omega
  have hsize : offset + (size - offset) = size := by omega
  have hover : size - offset - b.items.length = 0 := by omega
  have hempty : (b.drop (size - offset)).items.isEmpty = false := by
    simp [Block.drop]
    omega
  cases swap with
  | false => simp [Reader.doread, hcur, copied, hremainder, hsize, hempty]
  | true =>
    have hsmall : size - offset ≤ 16 := by have := hswap rfl; omega
    simp [Reader.doread, hcur, copied, hremainder, hsize, hempty, hsmall, hover]

theorem doread_spent {r : Reader} (dest : List UInt8) (hcur : r.current = b :: rest)
    (hswap : swap = true → size ≤ 16) (hle : b.items.length ≤ size - offset) :
    r.doread dest size swap offset =
      (copied dest size swap offset b, offset + b.items.length,
        ({ r with current := b.drop b.items.length :: rest } : Reader).leaveBlock) := by
  have hinitial : size - offset - (size - offset - b.items.length) = b.items.length := by omega
  have hremainder : (if size - offset > b.items.length then size - offset - b.items.length else 0) =
      size - offset - b.items.length := by split <;> omega
  have hempty : (b.drop b.items.length).items.isEmpty = true := by simp [Block.drop]
  have htake : b.items.take (size - offset) = b.items := List.take_of_length_le hle
  cases swap with
  | false =>
    simp only [Reader.doread, hcur, copied, hremainder, hinitial, hempty, htake]
    simp
  | true =>
    have hsmall : b.items.length ≤ 16 := by have := hswap rfl; omega
    simp only [Reader.doread, hcur, copied, hremainder, hinitial, hempty, htake, hsmall]
    simp

/-- The destination of `buffer_read` when the stream holds the bytes. -/
def filled (dest : List UInt8) (size : Nat) (swap : Bool) (offset : Nat) (stream : List UInt8) :
    List UInt8 :=
  if swap then (stream.take (size - offset)).reverse ++ dest.drop (size - offset)
  else dest.take offset ++ stream.take (size - offset)

variable {dest : List UInt8}

theorem copied_length (hdest : dest.length = size) (hoffset : offset ≤ size) :
    (copied dest size swap offset b).length = size := by
  cases swap <;> simp [copied, splice] <;> omega

theorem filled_within (rest : List UInt8) (hdest : dest.length = size) (hoffset : offset ≤ size)
    (hlt : size - offset < b.items.length) :
    copied dest size swap offset b = filled dest size swap offset (b.items ++ rest) := by
  have htake : (b.items ++ rest).take (size - offset) = b.items.take (size - offset) :=
    List.take_append_of_le_length (by omega)
  have hover : size - offset - b.items.length = 0 := by omega
  have hlen : min (size - offset) b.items.length = size - offset := by omega
  have hdrop : dest.drop (offset + (size - offset)) = [] := List.drop_eq_nil_of_le (by omega)
  cases swap with
  | false => simp [copied, filled, splice, htake, hlen, hdrop]
  | true => simp [copied, filled, splice, htake, hover, hlen]

theorem filled_spent (rest : List UInt8) (hdest : dest.length = size) (hoffset : offset ≤ size)
    (hle : b.items.length ≤ size - offset) :
    filled (copied dest size swap offset b) size swap (offset + b.items.length) rest =
      filled dest size swap offset (b.items ++ rest) := by
  have htake : b.items.take (size - offset) = b.items := List.take_of_length_le hle
  have hleft : size - (offset + b.items.length) = size - offset - b.items.length := by omega
  have happ : (b.items ++ rest).take (size - offset) =
      b.items ++ rest.take (size - offset - b.items.length) := by
    rw [List.take_append, htake]
  cases swap with
  | false =>
    have hlen : (dest.take offset ++ b.items).length = offset + b.items.length := by simp; omega
    simp only [copied, filled, splice, htake, hleft, happ, Bool.false_eq_true, if_false]
    rw [List.take_left' hlen, List.append_assoc]
  | true =>
    have hlen : (dest.take (size - offset - b.items.length)).length =
        size - offset - b.items.length := by simp; omega
    have hsum : size - offset - b.items.length + b.items.reverse.length = size - offset := by
      simp
      omega
    simp only [copied, filled, splice, htake, hleft, happ, if_true, hsum]
    rw [List.append_assoc, List.drop_left' hlen, List.reverse_append, List.append_assoc]

theorem bufferReadLoop_done (size : Nat) (swap : Bool) (rounds : Nat) (r : Reader)
    (dest : List UInt8) : Reader.bufferReadLoop size swap rounds r dest size = (dest, r) := by
  cases rounds <;> simp [Reader.bufferReadLoop]

theorem bufferReadLoop_spec {size : Nat} (hswap : swap = true → size ≤ 16) (rounds : Nat)
    (r : Reader) (dest : List UInt8) (offset : Nat) (hrounds : r.current.length < rounds)
    (hdest : dest.length = size) (hoffset : offset ≤ size) :
    Advanced r (Reader.bufferReadLoop size swap rounds r dest offset).2 (size - offset) ∧
    (size - offset ≤ (contents r.current).length →
      (Reader.bufferReadLoop size swap rounds r dest offset).1 =
        filled dest size swap offset (contents r.current)) := by
  induction rounds generalizing r dest offset with
  | zero => omega
  | succ rounds ih =>
    unfold Reader.bufferReadLoop
    split
    · cases hcur : r.current with
      | nil =>
        simp only [Reader.doread, hcur]
        rw [bufferReadLoop_done]
        refine ⟨advanced_off hcur (by omega), fun h => ?_⟩
        simp only [contents_nil, List.length_nil] at h
        omega
      | cons b rest =>
        by_cases hlt : size - offset < b.items.length
        · rw [doread_within dest hcur hoffset hswap hlt, bufferReadLoop_done]
          refine ⟨advanced_within hcur hlt, fun _ => ?_⟩
          exact filled_within _ hdest hoffset hlt
        · rw [doread_spent dest hcur hswap (by omega)]
          have left := leaveBlock_left r b rest
          obtain ⟨hadv, hbytes⟩ := ih
            ({ r with current := b.drop b.items.length :: rest } : Reader).leaveBlock
            (copied dest size swap offset b) (offset + b.items.length)
            (by rw [left.current]; simp only [hcur, List.length_cons] at hrounds; omega)
            (copied_length hdest hoffset) (by omega)
          rw [left.current] at hbytes
          constructor
          · apply left.advanced hcur (by omega) (by omega)
            rwa [Nat.sub_add_eq] at hadv
          · intro hall
            rw [contents_cons, List.length_append] at hall
            exact (hbytes (by omega)).trans (filled_spent _ hdest hoffset (by omega))
    · obtain rfl : offset = size := by omega
      rw [Nat.sub_self]
      refine ⟨Advanced.refl r, fun _ => ?_⟩
      cases swap <;> simp [filled, ← hdest]

/-- The bytes `buffer_read` stores, in the order of memory. -/
def ordered (swap : Bool) (bytes : List UInt8) : List UInt8 :=
  if swap then bytes.reverse else bytes

theorem bufferRead_advanced (r : Reader) {size : Nat} (hswap : swap = true → size ≤ 16) :
    Advanced r (r.bufferRead size swap).2 size := by
  have h := (bufferReadLoop_spec hswap (r.current.length + 1) r (List.replicate size 0) 0
    (by omega) (by simp) (by omega)).1
  exact h

theorem bufferRead_bytes (r : Reader) {size : Nat} (hswap : swap = true → size ≤ 16)
    (hsize : size ≤ (contents r.current).length) :
    (r.bufferRead size swap).1 = ordered swap ((contents r.current).take size) := by
  have h := (bufferReadLoop_spec hswap (r.current.length + 1) r (List.replicate size 0) 0
    (by omega) (by simp) (by omega)).2 (by omega)
  unfold Reader.bufferRead
  rw [h]
  cases swap <;> simp [filled, ordered]

/-- The number of padding bytes in front of a value at position `p`. -/
def padding (a : Alignment) (al p : Nat) : Nat :=
  if al ≤ 1 ∨ a = .none then 0 else (al - p % al) % al

theorem Primitive.align_cases (t : Primitive) :
    t.align = 1 ∨ t.align = 2 ∨ t.align = 4 ∨ t.align = 8 := by
  cases t <;> decide

theorem Primitive.size_pos (t : Primitive) : 0 < t.size := by cases t <;> decide

theorem Primitive.size_le (t : Primitive) : t.size ≤ 16 := by cases t <;> decide

theorem Primitive.align_le_one (t : Primitive) : t.align ≤ 1 ↔ t.size ≤ 1 := by
  cases t <;> decide

theorem alignFor_ok {r : Reader} {al p : Nat} (hal : al = 1 ∨ al = 2 ∨ al = 4 ∨ al = 8)
    (hat : r.alignment ≠ .none → r.At p) (hcur : 1 < al → r.alignment ≠ .none → r.current ≠ []) :
    ∃ after, r.alignFor al = .ok after ∧ Advanced r after (padding r.alignment al p) := by
  unfold Reader.alignFor padding
  split
  · exact ⟨r, rfl, Advanced.refl r⟩
  · rename_i hnot
    rw [not_or] at hnot
    cases hc : r.current with
    | nil => exact absurd hc (hcur (by omega) hnot.2)
    | cons b rest =>
      have hb : Positioned b.address r.alignRshift p := hat hnot.2 b (by simp [hc])
      refine ⟨_, by simp only [Reader.alignR, hc]; rfl, ?_⟩
      have hpad : (((al : Int) - b.address + r.alignRshift) % al).toNat = (al - p % al) % al := by
        unfold Positioned at hb
        rcases hal with rfl | rfl | rfl | rfl <;> omega
      rw [hpad]
      exact skipBytes_advanced r _

theorem alignFor_null {r : Reader} {al : Nat} (hal : 1 < al) (ha : r.alignment ≠ .none)
    (hcur : r.current = []) : r.alignFor al = .error .nullCurrent := by
  unfold Reader.alignFor
  rw [if_neg (by simp [ha]; omega)]
  simp [Reader.alignR, hcur]

theorem readElements_advanced {size : Nat} (hsize : size ≤ 16) (length : Nat) (r : Reader) :
    Advanced r (Reader.readElements size length r).2 (size * length) := by
  induction length generalizing r with
  | zero => exact Advanced.refl r
  | succ length ih =>
    have first : Advanced r (r.bufferRead size true).2 size :=
      bufferRead_advanced r fun _ => hsize
    have hlen : size * (length + 1) = size + size * length := by rw [Nat.mul_succ, Nat.add_comm]
    rw [hlen]
    exact first.trans (ih _)

theorem readArray_advanced (r : Reader) {size : Nat} (hsize : size ≤ 16) (length : Nat)
    (swap : Bool) : Advanced r (r.readArray size length swap).2 (size * length) := by
  unfold Reader.readArray
  split
  · exact bufferRead_advanced r (by simp)
  · exact readElements_advanced hsize length r

theorem alignFor_advanced {r after : Reader} {al : Nat} (h : r.alignFor al = .ok after) :
    ∃ n, Advanced r after n := by
  unfold Reader.alignFor at h
  split at h
  · cases h
    exact ⟨0, Advanced.refl r⟩
  · unfold Reader.alignR at h
    split at h
    · cases h
    · cases h
      exact ⟨_, skipBytes_advanced r _⟩

section

variable (host : ByteOrder)

theorem readWChars_advanced (length : Nat) (r : Reader) :
    ∃ n, Advanced r (r.readWChars host length).2 n := by
  induction length generalizing r with
  | zero => exact ⟨0, Advanced.refl r⟩
  | succ length ih =>
    unfold Reader.readWChars
    split
    · have first : Advanced r (r.bufferRead 2 (swapBE host)).2 2 :=
        bufferRead_advanced r fun _ => by omega
      obtain ⟨n, hn⟩ := ih (r.bufferRead 2 (swapBE host)).2
      exact ⟨2 + n, first.trans hn⟩
    · exact ⟨0, Advanced.refl r⟩

theorem readWChar_moved (r : Reader) : ∃ n, Moved r (r.readWChar host).2 n := by
  have hlen : Advanced r (r.bufferRead 1 false).2 1 := bufferRead_advanced r (by simp)
  unfold Reader.readWChar
  dsimp only
  split
  · exact ⟨_, (hlen.trans (bufferRead_advanced _ fun _ => by omega)).toMoved⟩
  · exact ⟨_, hlen.current, hlen.swapBytes, hlen.alignment, hlen.position⟩

theorem readWCharArray_moved (length : Nat) (r : Reader) :
    ∃ n, Moved r (r.readWCharArray host length).2 n := by
  induction length generalizing r with
  | zero => exact ⟨0, Moved.refl r⟩
  | succ length ih =>
    obtain ⟨n, hn⟩ := readWChar_moved host r
    unfold Reader.readWCharArray
    dsimp only
    split
    · obtain ⟨m, hm⟩ := ih (r.readWChar host).2
      exact ⟨_, hn.trans hm⟩
    · exact ⟨n, hn⟩

/-- The length announced by a prefix in front of `bytes`. -/
def announced (swap : Bool) (bytes : List UInt8) : Nat :=
  host.ofBytes (ordered swap (bytes.take Primitive.ulong.size))

theorem readCounted_eq {α : Type} {r : Reader} {p : Nat} (read : Nat → Reader → α × Reader)
    (hat : r.alignment ≠ .none → r.At p)
    (hcur : 1 < Primitive.ulong.align → r.alignment ≠ .none → r.current ≠ []) :
    ∃ mid, Advanced r mid (padding r.alignment Primitive.ulong.align p + Primitive.ulong.size) ∧
      r.readCounted host read =
        if mid.goodBit then
          if mid.current.isEmpty then .error .nullCurrent
          else
            let length := announced host r.swapBytes
              ((contents r.current).drop (padding r.alignment Primitive.ulong.align p))
            if length ≤ totalLength mid.current then
              .ok (if (read length mid).2.goodBit then some (read length mid).1 else none,
                (read length mid).2)
            else .ok (none, mid)
        else .ok (none, mid) := by
  obtain ⟨aligned, hok, hadv⟩ := alignFor_ok Primitive.ulong.align_cases hat hcur
  have hmid := hadv.trans (bufferRead_advanced aligned
    fun _ : aligned.swapBytes = true => (by decide : Primitive.ulong.size ≤ 16))
  refine ⟨_, hmid, ?_⟩
  unfold Reader.readCounted
  simp only [hok]
  split
  · rename_i hgood
    have hle := (hmid.good hgood).2
    have hlength : host.ofBytes (aligned.bufferRead Primitive.ulong.size aligned.swapBytes).1 =
        announced host r.swapBytes
          ((contents r.current).drop (padding r.alignment Primitive.ulong.align p)) := by
      rw [bufferRead_bytes aligned (fun _ => by decide)
        (by rw [hadv.contents, List.length_drop]; omega), hadv.contents, hadv.swapBytes]
      rfl
    rw [hlength]
  · rfl

theorem readCounted_moved {α : Type} {r after : Reader} {read : Nat → Reader → α × Reader}
    {dest : Option α} (hread : ∀ length r, ∃ n, Moved r (read length r).2 n)
    (h : r.readCounted host read = .ok (dest, after)) : ∃ n, Moved r after n := by
  simp only [Reader.readCounted] at h
  split at h
  · cases h
  · rename_i aligned hal
    obtain ⟨n, hn⟩ := alignFor_advanced hal
    have hlen : Advanced aligned (aligned.bufferRead Primitive.ulong.size aligned.swapBytes).2
        Primitive.ulong.size := bufferRead_advanced aligned fun _ => by decide
    split at h
    · split at h
      · cases h
      · split at h
        · cases h
          obtain ⟨m, hm⟩ := hread
            (host.ofBytes (aligned.bufferRead Primitive.ulong.size aligned.swapBytes).1)
            (aligned.bufferRead Primitive.ulong.size aligned.swapBytes).2
          exact ⟨_, (hn.trans hlen).toMoved.trans hm⟩
        · cases h
          exact ⟨_, (hn.trans hlen).toMoved⟩
    · cases h
      exact ⟨_, (hn.trans hlen).toMoved⟩

theorem extract_moved {r after : Reader} {e : Extraction} {x : Datum}
    (h : r.extract host e = .ok (x, after)) : ∃ n, Moved r after n := by
  cases e with
  | primitive t =>
    simp only [Reader.extract, Reader.readPrimitive] at h
    split at h
    · cases h
    · rename_i aligned hal
      cases h
      obtain ⟨n, hn⟩ := alignFor_advanced hal
      exact ⟨_, (hn.trans (bufferRead_advanced aligned fun _ => t.size_le)).toMoved⟩
  | array t length =>
    simp only [Reader.extract, Reader.readPrimitiveArray] at h
    split at h
    · cases h
    · rename_i aligned hal
      cases h
      obtain ⟨n, hn⟩ := alignFor_advanced hal
      exact ⟨_, (hn.trans (readArray_advanced aligned t.size_le _ _)).toMoved⟩
  | wchar =>
    cases h
    exact readWChar_moved host r
  | wcharArray length =>
    cases h
    exact readWCharArray_moved host length.toNat r
  | string =>
    obtain ⟨⟨dest, moved⟩, hread, hx⟩ := Folds.map_eq_ok h
    cases hx
    exact readCounted_moved host
      (fun length r => ⟨_, (readArray_advanced r (by omega) length r.swapBytes).toMoved⟩) hread
  | wstring =>
    obtain ⟨⟨dest, moved⟩, hread, hx⟩ := Folds.map_eq_ok h
    cases hx
    exact readCounted_moved host
      (fun length r => (readWChars_advanced host (length / 2) r).imp fun _ h => h.toMoved) hread
  | skip n t =>
    simp only [Reader.extract, Reader.skip] at h
    split at h
    · cases h
    · rename_i aligned hal
      cases h
      obtain ⟨m, hm⟩ := alignFor_advanced hal
      exact ⟨_, (hm.trans (skipBytes_advanced aligned _)).toMoved⟩

end

end OpenDDS.Source.Serializer
