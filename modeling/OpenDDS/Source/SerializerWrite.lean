import OpenDDS.Source.SerializerRead

/-!
The inserting half of `OpenDDS::DCPS::Serializer` (dds/DCPS/Serializer.inl) over a chain
of fresh blocks. A block is given by the address of its write pointer and the memory
from there to its end, so that padding which is not initialized keeps what the memory
held; `written` are the bytes stored so far, in the order of the chain. As for reading,
what a value stores depends only on the position it is stored at.
-/
namespace OpenDDS.Source.Serializer
open Library Library.Chain

structure Writer where
  current : List (Block UInt8)
  written : List UInt8
  swapBytes : Bool
  goodBit : Bool
  alignment : Alignment
  alignWshift : Nat

def Writer.ofChain (chain : List (Block UInt8)) (swapBytes : Bool) (align : Alignment) : Writer :=
  { current := chain
    written := []
    swapBytes := swapBytes
    goodBit := true
    alignment := align
    alignWshift := match chain with
      | [] => 0
      | b :: _ => b.address % maxAlign }

def Writer.alignContW (w : Writer) : Writer :=
  match w.current with
  | [] => w
  | [_] => { w with current := [] }
  | b :: next :: rest =>
    { w with current := next :: rest, alignWshift := shiftAt b.address w.alignWshift next.address }

/-- Leaving a full block in `dowrite`. -/
def Writer.leaveBlock (w : Writer) : Writer :=
  if w.alignment = .none then { w with current := w.current.tail } else w.alignContW

/-- `dowrite` of `src`: the offset reached and the serializer. -/
def Writer.dowrite (w : Writer) (src : List UInt8) (swap : Bool) (offset : Nat) : Nat × Writer :=
  match w.current with
  | [] => (src.length, { w with goodBit := false })
  | b :: rest =>
    let left := src.length - offset
    let remainder := if left > b.items.length then left - b.items.length else 0
    let initial := left - remainder
    let bytes := if swap then
        if initial ≤ 16 then ((src.drop remainder).take initial).reverse else b.items.take initial
      else (src.drop offset).take initial
    let w := { w with current := b.drop initial :: rest
                      written := w.written ++ bytes
                      goodBit := w.goodBit && (!swap || initial ≤ 16) }
    (offset + initial, if (b.drop initial).items.isEmpty then w.leaveBlock else w)

/-- The loop of `buffer_write`, with rounds as for `buffer_read`. -/
def Writer.bufferWriteLoop (src : List UInt8) (swap : Bool) : Nat → Writer → Nat → Writer
  | 0, w, _ => w
  | rounds + 1, w, offset =>
    if src.length > offset then
      let res := w.dowrite src swap offset
      bufferWriteLoop src swap rounds res.2 res.1
    else w

def Writer.bufferWrite (w : Writer) (src : List UInt8) (swap : Bool) : Writer :=
  bufferWriteLoop src swap (w.current.length + 1) w 0

/-- The padding stored in a block: zeros, or what the memory held. -/
def padBytes (a : Alignment) (memory : List UInt8) (n : Nat) : List UInt8 :=
  if a = .initialized then List.replicate n 0 else memory.take n

/-- The loop of `align_w`. -/
def Writer.padLoop : Nat → Writer → Nat → Writer
  | 0, w, _ => w
  | rounds + 1, w, len =>
    if len = 0 then w
    else
      match w.current with
      | [] => { w with goodBit := false }
      | b :: rest =>
        if b.items.length ≤ len then
          padLoop rounds
            ({ w with current := b.drop b.items.length :: rest
                      written := w.written ++ padBytes w.alignment b.items b.items.length } :
              Writer).alignContW
            (len - b.items.length)
        else
          { w with current := b.drop len :: rest
                   written := w.written ++ padBytes w.alignment b.items len }

/-- `align_w`, which reads the address of the current block before it looks for one. -/
def Writer.alignW (w : Writer) (al : Nat) : Except Fault Writer :=
  match w.current with
  | [] => .error .nullCurrent
  | b :: _ =>
    .ok (w.padLoop (w.current.length + 1) (((al : Int) - b.address + w.alignWshift) % al).toNat)

def Writer.alignFor (w : Writer) (al : Nat) : Except Fault Writer :=
  if al ≤ 1 ∨ w.alignment = .none then .ok w else w.alignW al

def Writer.writeArray (w : Writer) (size : Nat) (images : List (List UInt8)) (swap : Bool) :
    Writer :=
  if !swap || size = 1 then w.bufferWrite images.flatten false
  else images.foldl (fun w image => w.bufferWrite image true) w

structure CString where
  chars : List UInt8
  noNul : 0 ∉ chars

/-- Its characters in memory, with the terminator. -/
def CString.memory (s : CString) : List UInt8 := s.chars ++ [0]

/-- `1 + strlen`, cast to `ACE_CDR::ULong`. -/
def CString.stringlen (s : CString) : Nat := (1 + s.chars.length) % 2 ^ 32

/-- One call of the inserting interface; an array length is an `ACE_CDR::ULong`, and a
string may be a null pointer. -/
inductive Value where
  | primitive (t : Primitive) (x : BitVec (8 * t.size))
  | array (t : Primitive) (xs : List (BitVec (8 * t.size))) (length_lt : xs.length < 2 ^ 32)
  | string (x : Option CString)

section

variable (host : ByteOrder)

/-- The object representation of a primitive value. -/
def image {size : Nat} (x : BitVec (8 * size)) : List UInt8 := host.toBytes size x.toNat

/-- The insertion operators of the primitive types. -/
def Writer.writePrimitive (w : Writer) (t : Primitive) (x : BitVec (8 * t.size)) :
    Except Fault Writer :=
  match w.alignFor t.align with
  | .error fault => .error fault
  | .ok w => .ok (w.bufferWrite (image host x) (t.swap w.swapBytes))

/-- `write_short_array` and its siblings. -/
def Writer.writePrimitiveArray (w : Writer) (t : Primitive) (xs : List (BitVec (8 * t.size))) :
    Except Fault Writer :=
  match w.alignFor t.align with
  | .error fault => .error fault
  | .ok w => .ok (w.writeArray t.size (xs.map (image host)) w.swapBytes)

def Writer.writeString (w : Writer) (x : Option CString) : Except Fault Writer :=
  match x with
  | none => w.writePrimitive host .ulong 0
  | some s =>
    match w.writePrimitive host .ulong (BitVec.ofNat _ s.stringlen) with
    | .error fault => .error fault
    | .ok w => .ok (w.bufferWrite (s.memory.take s.stringlen) false)

def Writer.insert (w : Writer) : Value → Except Fault Writer
  | .primitive t x => w.writePrimitive host t x
  | .array t xs _ => w.writePrimitiveArray host t xs
  | .string x => w.writeString host x

def Writer.insertAll : Writer → List Value → Except Fault Writer
  | w, [] => .ok w
  | w, v :: vs =>
    match w.insert host v with
    | .error fault => .error fault
    | .ok w => insertAll w vs

end

/-- The writer stands at position `p` of its stream. -/
def Writer.At (w : Writer) (p : Nat) : Prop :=
  ∀ b ∈ w.current.head?, Positioned b.address w.alignWshift p

/-- `after` is the writer with `bytes` stored. -/
structure Stored (w after : Writer) (bytes : List UInt8) : Prop where
  current : after.current = consume bytes.length w.current
  written : after.written = w.written ++ bytes
  goodBit : after.goodBit = w.goodBit
  swapBytes : after.swapBytes = w.swapBytes
  alignment : after.alignment = w.alignment
  position : w.alignment ≠ .none → ∀ p, w.At p → after.At (p + bytes.length)

/-- Storing `n` bytes: all of them, or the chain is full and the writer bad. -/
structure Outcome (w after : Writer) (n : Nat) (bytes : List UInt8) : Prop where
  swapBytes : after.swapBytes = w.swapBytes
  alignment : after.alignment = w.alignment
  stored : n ≤ (contents w.current).length → bytes.length = n ∧ Stored w after bytes
  overrun : (contents w.current).length < n → after.goodBit = false ∧ after.current = []

theorem writer_ofChain_at (chain : List (Block UInt8)) (swapBytes : Bool) (align : Alignment) :
    (Writer.ofChain chain swapBytes align).At 0 := by
  cases chain with
  | nil => simp [Writer.At, Writer.ofChain]
  | cons b rest =>
    simp only [Writer.At, Writer.ofChain, List.head?_cons, Option.mem_some_iff, forall_eq',
      Positioned, maxAlign]
    omega

theorem Stored.refl (w : Writer) : Stored w w [] :=
  ⟨by simp, by simp, rfl, rfl, rfl, fun _ p h => by simpa using h⟩

theorem Stored.trans {w mid after : Writer} {bytes more : List UInt8} (h₁ : Stored w mid bytes)
    (h₂ : Stored mid after more) : Stored w after (bytes ++ more) := by
  refine ⟨?_, ?_, h₂.goodBit.trans h₁.goodBit, h₂.swapBytes.trans h₁.swapBytes,
    h₂.alignment.trans h₁.alignment, ?_⟩
  · rw [h₂.current, h₁.current, consume_consume, List.length_append]
  · rw [h₂.written, h₁.written, List.append_assoc]
  · intro ha p hp
    rw [List.length_append, ← Nat.add_assoc]
    exact h₂.position (by rw [h₁.alignment]; exact ha) _ (h₁.position ha p hp)

theorem Stored.contents {w after : Writer} {bytes : List UInt8} (h : Stored w after bytes) :
    Chain.contents after.current = (Chain.contents w.current).drop bytes.length := by
  rw [h.current, contents_consume]

namespace Outcome

variable {w mid after : Writer} {n m : Nat} {bytes more : List UInt8}

theorem refl (w : Writer) : Outcome w w 0 [] :=
  ⟨rfl, rfl, fun _ => ⟨rfl, Stored.refl w⟩, fun h => by omega⟩

theorem good (h : Outcome w after n bytes) (hgood : after.goodBit = true) :
    w.goodBit = true ∧ bytes.length = n ∧ n ≤ (Chain.contents w.current).length ∧
      Stored w after bytes := by
  rcases Nat.lt_or_ge (Chain.contents w.current).length n with hlt | hle
  · rw [(h.overrun hlt).1] at hgood
    cases hgood
  · obtain ⟨hlen, hstored⟩ := h.stored hle
    exact ⟨by rw [← hstored.goodBit, hgood], hlen, hle, hstored⟩

theorem trans (h₁ : Outcome w mid n bytes) (h₂ : Outcome mid after m more) :
    Outcome w after (n + m) (bytes ++ more) := by
  refine ⟨h₂.swapBytes.trans h₁.swapBytes, h₂.alignment.trans h₁.alignment, fun hle => ?_,
    fun hlt => ?_⟩
  · obtain ⟨hlen, hstored⟩ := h₁.stored (by omega)
    obtain ⟨hlen', hstored'⟩ := h₂.stored (by rw [hstored.contents, List.length_drop]; omega)
    exact ⟨by rw [List.length_append, hlen, hlen'], hstored.trans hstored'⟩
  · rcases Nat.lt_or_ge (Chain.contents mid.current).length m with hover | hle
    · exact h₂.overrun hover
    · -- the first part has run off the chain, and the second stores nothing
      obtain ⟨-, hstored'⟩ := h₂.stored hle
      have hover : (Chain.contents w.current).length < n := by
        by_contra hfits
        obtain ⟨hlen, hstored⟩ := h₁.stored (by omega)
        rw [hstored.contents, List.length_drop] at hle
        omega
      obtain ⟨hbad, hnil⟩ := h₁.overrun hover
      exact ⟨by rw [hstored'.goodBit, hbad], by rw [hstored'.current, hnil, consume_nil]⟩

theorem position {p : Nat} (h : Outcome w after n bytes) (hat : w.alignment ≠ .none → w.At p)
    (ha : after.alignment ≠ .none) : after.At (p + n) := by
  rw [h.alignment] at ha
  rcases Nat.lt_or_ge (Chain.contents w.current).length n with hlt | hle
  · simp [Writer.At, (h.overrun hlt).2]
  · obtain ⟨hlen, hstored⟩ := h.stored hle
    have hpos := hstored.position ha p (hat ha)
    rwa [hlen] at hpos

end Outcome

/-- `moved` is the writer behind the block `b`, filled with `bytes`. -/
structure BlockFilled (w moved : Writer) (b : Block UInt8) (rest : List (Block UInt8))
    (bytes : List UInt8) : Prop where
  current : moved.current = rest
  written : moved.written = w.written ++ bytes
  goodBit : moved.goodBit = w.goodBit
  swapBytes : moved.swapBytes = w.swapBytes
  alignment : moved.alignment = w.alignment
  position : w.alignment ≠ .none → ∀ p, Positioned b.address w.alignWshift p →
    moved.At (p + b.items.length)

theorem alignContW_filled (w : Writer) (b : Block UInt8) (rest : List (Block UInt8))
    (bytes : List UInt8) :
    BlockFilled w (({ w with current := b.drop b.items.length :: rest
                             written := w.written ++ bytes } : Writer).alignContW) b rest bytes := by
  cases rest with
  | nil => exact ⟨rfl, rfl, rfl, rfl, rfl, by simp [Writer.alignContW, Writer.At]⟩
  | cons next rest =>
    refine ⟨rfl, rfl, rfl, rfl, rfl, fun _ p hp => ?_⟩
    simp only [Writer.alignContW, Writer.At, List.head?_cons, Option.mem_some_iff, forall_eq']
    exact positioned_shiftAt _ (positioned_add _ hp)

theorem leaveBlock_filled (w : Writer) (b : Block UInt8) (rest : List (Block UInt8))
    (bytes : List UInt8) :
    BlockFilled w (({ w with current := b.drop b.items.length :: rest
                             written := w.written ++ bytes } : Writer).leaveBlock) b rest bytes := by
  unfold Writer.leaveBlock
  split
  · rename_i h
    exact ⟨rfl, rfl, rfl, rfl, rfl, fun ha => absurd h ha⟩
  · exact alignContW_filled w b rest bytes

variable {rest : List (Block UInt8)} {b : Block UInt8}

theorem BlockFilled.outcome {w moved after : Writer} {n : Nat} {bytes more : List UInt8}
    (hcur : w.current = b :: rest) (filled : BlockFilled w moved b rest bytes) (hpos : 0 < n)
    (hlen : bytes.length = b.items.length) (hle : b.items.length ≤ n)
    (hout : Outcome moved after (n - b.items.length) more) : Outcome w after n (bytes ++ more) := by
  have hspace : (contents w.current).length = b.items.length + (contents moved.current).length := by
    rw [hcur, filled.current, contents_cons, List.length_append]
  refine ⟨hout.swapBytes.trans filled.swapBytes, hout.alignment.trans filled.alignment, ?_, ?_⟩
  · intro hfits
    obtain ⟨hmore, hstored⟩ := hout.stored (by omega)
    have hall : (bytes ++ more).length = n := by
      rw [List.length_append]
      omega
    refine ⟨hall, ?_, ?_, hstored.goodBit.trans filled.goodBit,
      hstored.swapBytes.trans filled.swapBytes, hstored.alignment.trans filled.alignment, ?_⟩
    · rw [hall, hcur, consume_of_le hpos hle, hstored.current, hmore, filled.current]
    · rw [hstored.written, filled.written, List.append_assoc]
    · intro ha p hp
      have hb : Positioned b.address w.alignWshift p := hp b (by simp [hcur])
      have hat := hstored.position (by rw [filled.alignment]; exact ha) _ (filled.position ha p hb)
      rw [List.length_append, ← Nat.add_assoc, hlen]
      exact hat
  · intro hover
    exact hout.overrun (by omega)

theorem outcome_within {w : Writer} {n : Nat} {bytes : List UInt8} (hcur : w.current = b :: rest)
    (hlt : n < b.items.length) (hlen : bytes.length = n) :
    Outcome w { w with current := b.drop n :: rest, written := w.written ++ bytes } n bytes := by
  refine ⟨rfl, rfl, ?_, ?_⟩
  · intro _
    refine ⟨hlen, ?_, rfl, rfl, rfl, rfl, fun _ p hp => ?_⟩
    · rw [hlen, hcur]
      rcases Nat.eq_zero_or_pos n with rfl | hpos
      · simp [Block.drop]
      · rw [consume_of_lt hpos hlt]
    · have hb : Positioned b.address w.alignWshift p := hp b (by simp [hcur])
      simp only [Writer.At, List.head?_cons, Option.mem_some_iff, forall_eq', hlen]
      exact positioned_add n hb
  · intro hover
    rw [hcur, contents_cons, List.length_append] at hover
    omega

theorem outcome_off {w : Writer} (hcur : w.current = []) {n : Nat} (hpos : 0 < n)
    (bytes : List UInt8) : Outcome w { w with current := [], goodBit := false } n bytes := by
  refine ⟨rfl, rfl, ?_, ?_⟩
  · intro h
    simp only [hcur, contents_nil, List.length_nil] at h
    omega
  · intro _
    exact ⟨rfl, rfl⟩

theorem padBytes_append (a : Alignment) (memory more : List UInt8) {n : Nat}
    (h : memory.length ≤ n) :
    padBytes a memory memory.length ++ padBytes a more (n - memory.length) =
      padBytes a (memory ++ more) n := by
  unfold padBytes
  split
  · rw [List.replicate_append_replicate]
    congr 1
    omega
  · rw [List.take_length, List.take_append, List.take_of_length_le h]

theorem padBytes_length (a : Alignment) {memory : List UInt8} {n : Nat} (h : n ≤ memory.length) :
    (padBytes a memory n).length = n := by
  unfold padBytes
  split <;> simp [h]

theorem padLoop_outcome (rounds : Nat) (w : Writer) (len : Nat) (h : w.current.length < rounds) :
    Outcome w (Writer.padLoop rounds w len) len
      (padBytes w.alignment (contents w.current) len) := by
  induction rounds generalizing w len with
  | zero => omega
  | succ rounds ih =>
    unfold Writer.padLoop
    split
    · rename_i hzero
      subst hzero
      have hnil : padBytes w.alignment (contents w.current) 0 = [] := by simp [padBytes]
      rw [hnil]
      exact Outcome.refl w
    · rename_i hne
      cases hcur : w.current with
      | nil => exact outcome_off hcur (Nat.pos_of_ne_zero hne) _
      | cons b rest =>
        simp only
        split
        · rename_i hle
          have filled := alignContW_filled w b rest (padBytes w.alignment b.items b.items.length)
          rw [contents_cons, ← padBytes_append _ _ _ hle]
          apply filled.outcome hcur (Nat.pos_of_ne_zero hne) (padBytes_length _ le_rfl) hle
          have hrest := ih _ (len - b.items.length) (by
            rw [filled.current]
            simp only [hcur, List.length_cons] at h
            omega)
          rwa [filled.alignment, filled.current] at hrest
        · rw [contents_cons]
          have hpad : padBytes w.alignment (b.items ++ contents rest) len =
              padBytes w.alignment b.items len := by
            unfold padBytes
            rw [List.take_append_of_le_length (by omega)]
          rw [hpad]
          exact outcome_within hcur (by omega) (padBytes_length _ (by omega))

variable {src : List UInt8}

theorem swapped_piece {offset initial : Nat} (hoffset : offset ≤ src.length)
    (hinitial : initial ≤ src.length - offset) :
    ((src.drop (src.length - offset - initial)).take initial).reverse =
      (src.reverse.drop offset).take initial := by
  have hlen : (src.take (src.length - offset)).length = src.length - offset := by simp
  rw [List.drop_reverse, List.take_reverse, hlen, List.drop_take]
  congr 2
  omega

/-- The part of a value that one round of `buffer_write` stores. -/
def piece (src : List UInt8) (swap : Bool) (offset initial : Nat) : List UInt8 :=
  ((ordered swap src).drop offset).take initial

theorem ordered_length (swap : Bool) (bytes : List UInt8) :
    (ordered swap bytes).length = bytes.length := by
  cases swap <;> simp [ordered]

variable {swap : Bool}

theorem piece_length {offset initial : Nat} (h : initial ≤ src.length - offset) :
    (piece src swap offset initial).length = initial := by
  rw [piece, List.length_take, List.length_drop, ordered_length]
  omega

theorem dowrite_within {w : Writer} {offset : Nat} (hcur : w.current = b :: rest)
    (hoffset : offset ≤ src.length) (hswap : swap = true → src.length ≤ 16)
    (hlt : src.length - offset < b.items.length) : w.dowrite src swap offset = (src.length,
      { w with current := b.drop (src.length - offset) :: rest
               written := w.written ++ piece src swap offset (src.length - offset) }) := by
  have hremainder : ¬ src.length - offset > b.items.length := by omega
  have hsize : offset + (src.length - offset) = src.length := by omega
  have hempty : (b.drop (src.length - offset)).items.isEmpty = false := by
    simp [Block.drop]
    omega
  cases swap with
  | false =>
    simp only [Writer.dowrite, hcur, if_neg hremainder, Nat.sub_zero, hsize, hempty, piece, ordered]
    simp
  | true =>
    have hsmall : src.length - offset ≤ 16 := by have := hswap rfl; omega
    have hpiece := swapped_piece hoffset (le_refl (src.length - offset))
    rw [Nat.sub_self] at hpiece
    simp only [Writer.dowrite, hcur, if_neg hremainder, Nat.sub_zero, hsize, hempty, hsmall,
      hpiece, piece, ordered]
    simp

theorem dowrite_filled {w : Writer} {offset : Nat} (hcur : w.current = b :: rest)
    (hoffset : offset ≤ src.length) (hswap : swap = true → src.length ≤ 16)
    (hle : b.items.length ≤ src.length - offset) :
    w.dowrite src swap offset = (offset + b.items.length,
      ({ w with current := b.drop b.items.length :: rest
                written := w.written ++ piece src swap offset b.items.length } :
        Writer).leaveBlock) := by
  have hinitial : src.length - offset - (src.length - offset - b.items.length) =
      b.items.length := by omega
  have hremainder : (if src.length - offset > b.items.length then
      src.length - offset - b.items.length else 0) = src.length - offset - b.items.length := by
    split <;> omega
  have hempty : (b.drop b.items.length).items.isEmpty = true := by simp [Block.drop]
  cases swap with
  | false =>
    simp only [Writer.dowrite, hcur, hremainder, hinitial, hempty, piece, ordered]
    simp
  | true =>
    have hsmall : b.items.length ≤ 16 := by have := hswap rfl; omega
    have hpiece := swapped_piece hoffset hle
    simp only [Writer.dowrite, hcur, hremainder, hinitial, hempty, hsmall, hpiece, piece, ordered]
    simp

theorem bufferWriteLoop_done (src : List UInt8) (swap : Bool) (rounds : Nat) (w : Writer) :
    Writer.bufferWriteLoop src swap rounds w src.length = w := by
  cases rounds <;> simp [Writer.bufferWriteLoop]

theorem bufferWriteLoop_outcome (hswap : swap = true → src.length ≤ 16) (rounds : Nat) (w : Writer)
    (offset : Nat) (hrounds : w.current.length < rounds) (hoffset : offset ≤ src.length) :
    Outcome w (Writer.bufferWriteLoop src swap rounds w offset) (src.length - offset)
      ((ordered swap src).drop offset) := by
  induction rounds generalizing w offset with
  | zero => omega
  | succ rounds ih =>
    unfold Writer.bufferWriteLoop
    split
    · cases hcur : w.current with
      | nil =>
        simp only [Writer.dowrite, hcur]
        rw [bufferWriteLoop_done]
        exact outcome_off hcur (by omega) _
      | cons b rest =>
        by_cases hlt : src.length - offset < b.items.length
        · rw [dowrite_within hcur hoffset hswap hlt, bufferWriteLoop_done]
          have hpiece : piece src swap offset (src.length - offset) =
              (ordered swap src).drop offset :=
            List.take_of_length_le (by rw [List.length_drop, ordered_length])
          rw [← hpiece]
          exact outcome_within hcur hlt (piece_length le_rfl)
        · rw [dowrite_filled hcur hoffset hswap (by omega)]
          have filled := leaveBlock_filled w b rest (piece src swap offset b.items.length)
          have hrest := ih _ (offset + b.items.length) (by
            rw [filled.current]
            simp only [hcur, List.length_cons] at hrounds
            omega) (by omega)
          rw [Nat.sub_add_eq] at hrest
          have hall := filled.outcome hcur (by omega) (piece_length (by omega)) (by omega) hrest
          rwa [piece, ← List.drop_drop, List.take_append_drop] at hall
    · obtain rfl : offset = src.length := by omega
      have hnil : (ordered swap src).drop src.length = [] :=
        List.drop_eq_nil_of_le (by rw [ordered_length])
      rw [Nat.sub_self, hnil]
      exact Outcome.refl w

theorem bufferWrite_outcome (w : Writer) (hswap : swap = true → src.length ≤ 16) :
    Outcome w (w.bufferWrite src swap) src.length (ordered swap src) := by
  have h := bufferWriteLoop_outcome hswap (w.current.length + 1) w 0 (by omega) (by omega)
  unfold Writer.bufferWrite
  simpa using h

theorem writer_alignFor_outcome {w after : Writer} {al p : Nat}
    (hal : al = 1 ∨ al = 2 ∨ al = 4 ∨ al = 8) (hat : w.alignment ≠ .none → w.At p)
    (h : w.alignFor al = .ok after) :
    Outcome w after (padding w.alignment al p)
      (padBytes w.alignment (contents w.current) (padding w.alignment al p)) := by
  unfold Writer.alignFor at h
  unfold padding
  split at h
  · rename_i hnone
    cases h
    rw [if_pos hnone]
    have hnil : padBytes w.alignment (contents w.current) 0 = [] := by simp [padBytes]
    rw [hnil]
    exact Outcome.refl w
  · rename_i hnot
    rw [if_neg hnot]
    rw [not_or] at hnot
    unfold Writer.alignW at h
    split at h
    · cases h
    · rename_i b rest hcur
      cases h
      have hb : Positioned b.address w.alignWshift p := hat hnot.2 b (by simp [hcur])
      have hpad : (((al : Int) - b.address + w.alignWshift) % al).toNat = (al - p % al) % al := by
        unfold Positioned at hb
        rcases hal with rfl | rfl | rfl | rfl <;> omega
      rw [hpad]
      exact padLoop_outcome _ w _ (by omega)

variable {size : Nat}

theorem writeElements_outcome (hsize : size ≤ 16) (images : List (List UInt8))
    (himages : ∀ image ∈ images, image.length = size) (w : Writer) :
    Outcome w (images.foldl (fun w image => w.bufferWrite image true) w) (size * images.length)
      (images.flatMap (ordered true)) := by
  induction images generalizing w with
  | nil => exact Outcome.refl w
  | cons image rest ih =>
    have hlen := himages image (by simp)
    have first : Outcome w (w.bufferWrite image true) image.length (ordered true image) :=
      bufferWrite_outcome w fun _ => by omega
    have others := ih (fun image h => himages image (by simp [h])) (w.bufferWrite image true)
    have hsum : size * (image :: rest).length = image.length + size * rest.length := by
      rw [List.length_cons, Nat.mul_succ, Nat.add_comm, hlen]
    rw [hsum, List.flatMap_cons]
    exact first.trans others

theorem length_flatten_images {images : List (List UInt8)}
    (himages : ∀ image ∈ images, image.length = size) :
    images.flatten.length = size * images.length := by
  rw [List.length_flatten, List.map_congr_left himages, List.map_const', List.sum_replicate_nat,
    Nat.mul_comm]

theorem flatMap_ordered_copy {images : List (List UInt8)}
    (himages : ∀ image ∈ images, image.length = size) (hcopy : (!swap || decide (size = 1)) = true) :
    images.flatMap (ordered swap) = images.flatten := by
  rw [List.flatten_eq_flatMap]
  apply List.flatMap_congr
  intro image himage
  cases swap with
  | false => rfl
  | true =>
    have hone : image.length = 1 := (himages image himage).trans (by simpa using hcopy)
    obtain ⟨b, rfl⟩ := List.length_eq_one_iff.mp hone
    rfl

theorem writeArray_outcome (hsize : size ≤ 16) (images : List (List UInt8))
    (himages : ∀ image ∈ images, image.length = size) (swap : Bool) (w : Writer) :
    Outcome w (w.writeArray size images swap) (size * images.length)
      (images.flatMap (ordered swap)) := by
  unfold Writer.writeArray
  split
  · rename_i hcopy
    rw [flatMap_ordered_copy himages hcopy, ← length_flatten_images himages]
    exact bufferWrite_outcome w (by simp)
  · rename_i hswap
    obtain rfl : swap = true := by
      cases swap with
      | false => simp at hswap
      | true => rfl
    exact writeElements_outcome hsize images himages w

def Value.align : Value → Nat
  | .primitive t _ => t.align
  | .array t _ _ => t.align
  | .string _ => Primitive.ulong.align

/-- The number of bytes of an inserted value, without padding. -/
def Value.payloadSize : Value → Nat
  | .primitive t _ => t.size
  | .array t xs _ => t.size * xs.length
  | .string none => Primitive.ulong.size
  | .string (some s) => Primitive.ulong.size + s.stringlen

/-- The bytes of an inserted value, without padding. -/
def Value.payload (host : ByteOrder) (swap : Bool) : Value → List UInt8
  | .primitive t x => ordered (t.swap swap) (image host x)
  | .array _ xs _ => xs.flatMap fun x => ordered swap (image host x)
  | .string none => ordered swap (host.toBytes Primitive.ulong.size 0)
  | .string (some s) =>
    ordered swap (host.toBytes Primitive.ulong.size s.stringlen) ++ s.memory.take s.stringlen

/-- The number of bytes of a value inserted at position `p`. -/
def Value.encodedSize (a : Alignment) (p : Nat) (v : Value) : Nat :=
  padding a v.align p + v.payloadSize

/-- The bytes of a value inserted at position `p` of a chain that held `memory` there. -/
def Value.encode (host : ByteOrder) (swap : Bool) (a : Alignment) (p : Nat) (memory : List UInt8)
    (v : Value) : List UInt8 :=
  padBytes a memory (padding a v.align p) ++ v.payload host swap

theorem image_length (host : ByteOrder) (x : BitVec (8 * size)) :
    (image host x).length = size := by simp [image]

theorem CString.stringlen_le (s : CString) : s.stringlen ≤ s.memory.length := by
  unfold stringlen memory
  rw [List.length_append, List.length_singleton]
  omega

theorem CString.stringlen_lt (s : CString) : s.stringlen < 2 ^ 32 := Nat.mod_lt _ (by decide)

theorem Value.payload_length (host : ByteOrder) (swap : Bool) (v : Value) :
    (v.payload host swap).length = v.payloadSize := by
  cases v with
  | primitive t x => simp [payload, payloadSize, ordered_length, image_length]
  | array t xs _ =>
    simp only [payload, payloadSize, List.length_flatMap, ordered_length, image_length,
      List.map_const', List.sum_replicate_nat, Nat.mul_comm]
  | string x =>
    cases x with
    | none => simp [payload, payloadSize, ordered_length]
    | some s => simp [payload, payloadSize, ordered_length, s.stringlen_le]

section

variable (host : ByteOrder) {w after : Writer} {p : Nat}

theorem writePrimitive_outcome {t : Primitive} {x : BitVec (8 * t.size)}
    (hat : w.alignment ≠ .none → w.At p) (h : w.writePrimitive host t x = .ok after) :
    Outcome w after (padding w.alignment t.align p + t.size)
      (padBytes w.alignment (contents w.current) (padding w.alignment t.align p) ++
        ordered (t.swap w.swapBytes) (image host x)) := by
  unfold Writer.writePrimitive at h
  split at h
  · cases h
  · rename_i aligned hal
    cases h
    have hpad := writer_alignFor_outcome t.align_cases hat hal
    have hwrite : Outcome aligned (aligned.bufferWrite (image host x) (t.swap aligned.swapBytes))
        (image host x).length (ordered (t.swap aligned.swapBytes) (image host x)) :=
      bufferWrite_outcome aligned fun _ => by
        rw [image_length]
        exact t.size_le
    rw [image_length] at hwrite
    have hall := hpad.trans hwrite
    rw [hpad.swapBytes] at hall ⊢
    exact hall

theorem insert_outcome {v : Value} (hat : w.alignment ≠ .none → w.At p)
    (h : w.insert host v = .ok after) :
    Outcome w after (v.encodedSize w.alignment p)
      (v.encode host w.swapBytes w.alignment p (contents w.current)) := by
  cases v with
  | primitive t x => exact writePrimitive_outcome host hat h
  | array t xs hxs =>
    simp only [Writer.insert, Writer.writePrimitiveArray] at h
    split at h
    · cases h
    · rename_i aligned hal
      cases h
      have hpad := writer_alignFor_outcome t.align_cases hat hal
      have hwrite := writeArray_outcome t.size_le (xs.map (image host)) (by simp [image_length])
        aligned.swapBytes aligned
      rw [List.length_map, List.flatMap_map] at hwrite
      have hall := hpad.trans hwrite
      rw [hpad.swapBytes] at hall ⊢
      exact hall
  | string x =>
    cases x with
    | none => exact writePrimitive_outcome host hat h
    | some s =>
      simp only [Writer.insert, Writer.writeString] at h
      split at h
      · cases h
      · rename_i prefixed hbegins
        cases h
        have hlength := writePrimitive_outcome host hat hbegins
        have hchars : Outcome prefixed (prefixed.bufferWrite (s.memory.take s.stringlen) false)
            (s.memory.take s.stringlen).length (ordered false (s.memory.take s.stringlen)) :=
          bufferWrite_outcome prefixed (by simp)
        have hsize : (s.memory.take s.stringlen).length = s.stringlen := by
          rw [List.length_take]
          have := s.stringlen_le
          omega
        rw [hsize] at hchars
        have hall := hlength.trans hchars
        have himage : image host (BitVec.ofNat (8 * Primitive.ulong.size) s.stringlen) =
            host.toBytes Primitive.ulong.size s.stringlen := by
          rw [image, BitVec.toNat_ofNat, Nat.mod_eq_of_lt]
          exact s.stringlen_lt
        rw [himage, List.append_assoc, Nat.add_assoc] at hall
        exact hall

/-- What a sequence of insertions from position `p` on stores. -/
def encodeAll (swap : Bool) (a : Alignment) : Nat → List UInt8 → List Value → List UInt8
  | _, _, [] => []
  | p, memory, v :: vs =>
    v.encode host swap a p memory ++
      encodeAll swap a (p + v.encodedSize a p) (memory.drop (v.encodedSize a p)) vs

/-- The number of bytes of a sequence of insertions. -/
def encodedSizeAll (a : Alignment) : Nat → List Value → Nat
  | _, [] => 0
  | p, v :: vs => v.encodedSize a p + encodedSizeAll a (p + v.encodedSize a p) vs

theorem encodedSizeAll_append (a : Alignment) (p : Nat) (front back : List Value) :
    encodedSizeAll a p (front ++ back) =
      encodedSizeAll a p front + encodedSizeAll a (p + encodedSizeAll a p front) back := by
  induction front generalizing p with
  | nil => simp [encodedSizeAll]
  | cons v front ih =>
    simp only [List.cons_append, encodedSizeAll, ih, Nat.add_assoc]

theorem insertAll_stored (vs : List Value) (hat : w.alignment ≠ .none → w.At p)
    (h : w.insertAll host vs = .ok after) (hgood : after.goodBit = true) :
    w.goodBit = true ∧ encodedSizeAll w.alignment p vs ≤ (contents w.current).length ∧
      Stored w after (encodeAll host w.swapBytes w.alignment p (contents w.current) vs) := by
  induction vs generalizing w p with
  | nil =>
    cases h
    exact ⟨hgood, Nat.zero_le _, Stored.refl _⟩
  | cons v vs ih =>
    unfold Writer.insertAll at h
    split at h
    · cases h
    · rename_i mid hmid
      have hout := insert_outcome host hat hmid
      obtain ⟨hmidGood, hfits, hrest⟩ := ih (hout.position hat) h
      obtain ⟨hw, hlen, hle, hfirst⟩ := hout.good hmidGood
      rw [hout.swapBytes, hout.alignment, hfirst.contents, hlen] at hrest
      rw [hout.alignment, hfirst.contents, hlen, List.length_drop] at hfits
      refine ⟨hw, ?_, hfirst.trans hrest⟩
      unfold encodedSizeAll
      omega

theorem encodeAll_length (swap : Bool) (a : Alignment) (vs : List Value) (p : Nat)
    (memory : List UInt8) (h : encodedSizeAll a p vs ≤ memory.length) :
    (encodeAll host swap a p memory vs).length = encodedSizeAll a p vs := by
  induction vs generalizing p memory with
  | nil => rfl
  | cons v vs ih =>
    unfold encodedSizeAll at h
    have hpad : (padBytes a memory (padding a v.align p)).length = padding a v.align p := by
      apply padBytes_length
      unfold Value.encodedSize at h
      omega
    have hrest := ih (p + v.encodedSize a p) (memory.drop (v.encodedSize a p))
      (by rw [List.length_drop]; omega)
    rw [encodeAll, encodedSizeAll, List.length_append, hrest, Value.encode, List.length_append, hpad,
      v.payload_length]
    rfl

end

end OpenDDS.Source.Serializer
