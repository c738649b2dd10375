import OpenDDS.Source.SerializerValue

/-!
# The serializer reads back what it wrote

A sequence of insertions into any chain of blocks, read back from any other division of
the produced bytes into blocks. Three kinds of input do not come back. A null string and
a string of `2 ^ 32 - 1` or more characters are stored under a length that wraps, and an
empty array of aligned elements at the very end of the bytes makes `align_r` use the null
block that follows them.

Padding is uninitialized memory under `ALIGN_CDR`, so there the comparison of two write
chains is for chains over the same memory.
-/
namespace OpenDDS.Guarantees.SerializerRoundTrip
open Library Library.Chain Source.Serializer

variable (host : ByteOrder)

/-- Every value is representable, and none is aligned where the chain has ended. -/
def Readable (a : Source.Serializer.Alignment) : Nat → List (Block UInt8) → List Value → Prop
  | _, _, [] => True
  | p, chain, v :: vs =>
    v.Representable ∧ (1 < v.align → a ≠ .none → chain ≠ []) ∧
      Readable a (p + v.encodedSize a p) (consume (v.encodedSize a p) chain) vs

/-- Reading the values back gives the same values, leaves the reader good and the chain
used up. -/
def ReadsBack (r : Reader) (vs : List Value) : Prop :=
  ∃ after, r.extractAll host (vs.map Value.extraction) = .ok (vs.map Value.datum, after) ∧
    after.goodBit = true ∧ contents after.current = []

theorem readsBack_cons {r : Reader} {v : Value} {vs : List Value} :
    ReadsBack host r (v :: vs) ↔
      ∃ mid, r.extract host v.extraction = .ok (v.datum, mid) ∧ ReadsBack host mid vs := by
  unfold ReadsBack
  simp only [List.map_cons, Reader.extractAll]
  constructor
  · rintro ⟨after, h, hgood⟩
    split at h
    · cases h
    · rename_i x mid hfirst
      split at h
      · cases h
      · rename_i xs last hrest
        simp only [Except.ok.injEq, Prod.mk.injEq, List.cons.injEq] at h
        obtain ⟨⟨rfl, rfl⟩, rfl⟩ := h
        exact ⟨mid, hfirst, last, hrest, hgood⟩
  · rintro ⟨mid, hfirst, after, hrest, hgood⟩
    refine ⟨after, ?_, hgood⟩
    simp only [hfirst, hrest]

theorem readsBack_iff_readable (vs : List Value) (r : Reader) (p : Nat) (memory : List UInt8)
    (hgood : r.goodBit = true) (hat : r.alignment ≠ .none → r.At p)
    (hmem : encodedSizeAll r.alignment p vs ≤ memory.length)
    (h : contents r.current = encodeAll host r.swapBytes r.alignment p memory vs) :
    ReadsBack host r vs ↔ Readable r.alignment p r.current vs := by
  induction vs generalizing r p memory with
  | nil => exact iff_of_true ⟨r, rfl, hgood, h⟩ trivial
  | cons v vs ih =>
    rw [readsBack_cons]
    unfold encodeAll Value.encode at h
    unfold encodedSizeAll at hmem
    rw [List.append_assoc] at h
    have hpad : (padBytes r.alignment memory (padding r.alignment v.align p)).length =
        padding r.alignment v.align p := by
      apply padBytes_length
      unfold Value.encodedSize at hmem
      omega
    unfold Readable
    by_cases hcur : 1 < v.align → r.alignment ≠ .none → r.current ≠ []
    · obtain ⟨hread, hlost⟩ := extract_value host v hgood hat hcur hpad h
      by_cases hrep : v.Representable
      · obtain ⟨mid, hok, hadv⟩ := hread hrep
        have hsize : (padBytes r.alignment memory (padding r.alignment v.align p) ++
            v.payload host r.swapBytes).length = v.encodedSize r.alignment p := by
          rw [List.length_append, hpad, v.payload_length]
          rfl
        have hleft : contents mid.current = encodeAll host mid.swapBytes mid.alignment
            (p + v.encodedSize r.alignment p) (memory.drop (v.encodedSize r.alignment p)) vs := by
          rw [hadv.contents, h, ← List.append_assoc, List.drop_left' hsize, hadv.swapBytes,
            hadv.alignment]
        have hmidGood : mid.goodBit = true := by
          apply hadv.good_of_le hgood
          rw [h, ← List.append_assoc, List.length_append]
          omega
        have hmidAt : mid.alignment ≠ .none → mid.At (p + v.encodedSize r.alignment p) := by
          intro ha
          rw [hadv.alignment] at ha
          exact hadv.position ha p (hat ha)
        have hrest := ih mid _ _ hmidGood hmidAt
          (by rw [hadv.alignment, List.length_drop]; omega) hleft
        rw [hadv.alignment, hadv.current] at hrest
        rw [← hrest]
        constructor
        · rintro ⟨mid', hok', hback⟩
          rw [hok] at hok'
          cases hok'
          exact ⟨hrep, hcur, hback⟩
        · rintro ⟨-, -, hback⟩
          exact ⟨mid, hok, hback⟩
      · refine iff_of_false ?_ fun hall => hrep hall.1
        rintro ⟨mid, hok, -⟩
        exact hlost hrep _ _ hok rfl
    · refine iff_of_false ?_ fun hall => hcur hall.2.1
      rintro ⟨mid, hok, -⟩
      have hnull : 1 < v.align ∧ r.alignment ≠ .none ∧ r.current = [] := by
        simpa [Classical.not_imp] using hcur
      rw [extract_null host hnull.1 hnull.2.1 hnull.2.2] at hok
      cases hok

theorem readable_iff (a : Source.Serializer.Alignment) (vs : List Value) (p : Nat)
    (chain : List (Block UInt8)) :
    Readable a p chain vs ↔ ∀ front v back, vs = front ++ v :: back → v.Representable ∧
      (1 < v.align → a ≠ .none → consume (encodedSizeAll a p front) chain ≠ []) := by
  induction vs generalizing p chain with
  | nil => simp [Readable]
  | cons v vs ih =>
    unfold Readable
    rw [ih]
    constructor
    · rintro ⟨hrep, hcur, hrest⟩ front u back heq
      cases front with
      | nil =>
        obtain ⟨rfl, rfl⟩ := heq
        simpa [encodedSizeAll] using ⟨hrep, hcur⟩
      | cons f front =>
        obtain ⟨rfl, rfl⟩ := heq
        have := hrest front u back rfl
        rwa [consume_consume] at this
    · intro hall
      have hfirst := hall [] v vs rfl
      rw [encodedSizeAll, consume_zero] at hfirst
      refine ⟨hfirst.1, hfirst.2, fun front u back heq => ?_⟩
      subst heq
      rw [consume_consume]
      exact hall (v :: front) u back rfl

def EmptyAligned : Value → Prop
  | .array t xs _ => 1 < t.size ∧ xs = []
  | _ => False

/-- An empty array of aligned elements is inserted behind the last byte, and the read chain
ends with that byte. -/
def Stuck (a : Source.Serializer.Alignment) (vs : List Value) (chain : List (Block UInt8)) : Prop :=
  a ≠ .none ∧ Full chain ∧ ∃ front v back, vs = front ++ v :: back ∧ EmptyAligned v ∧
    encodedSizeAll a (encodedSizeAll a 0 front) (v :: back) = 0

variable {a : Source.Serializer.Alignment}

theorem emptyAligned_of_size_zero {p : Nat} {v : Value} (hrep : v.Representable) (hal : 1 < v.align)
    (hsize : v.encodedSize a p = 0) : EmptyAligned v := by
  have hpayload : v.payloadSize = 0 := by
    unfold Value.encodedSize at hsize
    omega
  cases v with
  | primitive t x =>
    have := t.size_pos
    simp only [Value.payloadSize] at hpayload
    omega
  | array t xs hxs =>
    simp only [Value.payloadSize, Nat.mul_eq_zero, List.length_eq_zero_iff] at hpayload
    simp only [Value.align] at hal
    have := t.align_le_one
    exact ⟨by omega, hpayload.resolve_left (by omega)⟩
  | string x =>
    cases x with
    | none => exact hrep.elim
    | some s => simp [Value.payloadSize, Primitive.size] at hpayload

theorem readable_iff_not_stuck {vs : List Value} {chain : List (Block UInt8)}
    (hlen : (contents chain).length = encodedSizeAll a 0 vs) :
    Readable a 0 chain vs ↔ (∀ v ∈ vs, v.Representable) ∧ ¬ Stuck a vs chain := by
  have hend : ∀ front v back, vs = front ++ v :: back →
      (consume (encodedSizeAll a 0 front) chain = [] ↔
        encodedSizeAll a (encodedSizeAll a 0 front) (v :: back) = 0 ∧ Full chain) := by
    intro front v back heq
    subst heq
    rw [encodedSizeAll_append, Nat.zero_add] at hlen
    rw [consume_eq_nil_iff (by omega)]
    constructor
    · rintro ⟨h, hfull⟩
      exact ⟨by omega, hfull⟩
    · rintro ⟨h, hfull⟩
      exact ⟨by omega, hfull⟩
  rw [readable_iff]
  constructor
  · intro hall
    refine ⟨fun v hv => ?_, ?_⟩
    · obtain ⟨front, back, heq⟩ := List.append_of_mem hv
      exact (hall front v back heq).1
    · rintro ⟨ha, hfull, front, v, back, heq, hempty, hzero⟩
      refine (hall front v back heq).2 ?_ ha ((hend front v back heq).mpr ⟨hzero, hfull⟩)
      cases v with
      | primitive t x => exact hempty.elim
      | array t xs hxs =>
        have := t.align_le_one
        have := hempty.1
        simp only [Value.align]
        omega
      | string x => exact hempty.elim
  · rintro ⟨hrep, hnot⟩ front v back heq
    have hv : v.Representable := hrep v (by rw [heq]; simp)
    refine ⟨hv, fun hal ha hnil => hnot ⟨ha, ?_⟩⟩
    obtain ⟨hzero, hfull⟩ := (hend front v back heq).mp hnil
    have hsize : v.encodedSize a (encodedSizeAll a 0 front) = 0 := by
      exact (Nat.add_eq_zero_iff.mp hzero).1
    exact ⟨hfull, front, v, back, heq, emptyAligned_of_size_zero hv hal hsize, hzero⟩

theorem encodeAll_memory (swap : Bool) (vs : List Value) (p : Nat) (memory memory' : List UInt8)
    (h : a = .cdr → memory'.take (encodedSizeAll a p vs) = memory.take (encodedSizeAll a p vs)) :
    encodeAll host swap a p memory' vs = encodeAll host swap a p memory vs := by
  induction vs generalizing p memory memory' with
  | nil => rfl
  | cons v vs ih =>
    unfold encodeAll Value.encode
    unfold encodedSizeAll at h
    congr 1
    · congr 1
      unfold padBytes
      split
      · rfl
      · rename_i hinit
        cases a with
        | none => simp [padding]
        | initialized => exact absurd rfl hinit
        | cdr =>
          have hle : padding .cdr v.align p ≤ v.encodedSize .cdr p +
              encodedSizeAll .cdr (p + v.encodedSize .cdr p) vs := by
            unfold Value.encodedSize
            omega
          have hcut := congrArg (List.take (padding .cdr v.align p)) (h rfl)
          rwa [List.take_take, List.take_take, Nat.min_eq_left hle] at hcut
    · apply ih
      intro ha
      have hcut := congrArg (List.drop (v.encodedSize a p)) (h ha)
      rwa [List.drop_take, List.drop_take, Nat.add_sub_cancel_left] at hcut

/-- Values inserted into any chain come back from any division of the bytes exactly when
strings are there and short enough for their prefix and no empty array makes the reader
align behind the last byte; and the bytes do not depend on the write chain. -/
theorem round_trip_iff (swap : Bool) (a : Source.Serializer.Alignment) (vs : List Value)
    (chain : List (Block UInt8)) (w : Writer)
    (hw : (Writer.ofChain chain swap a).insertAll host vs = .ok w) (hgood : w.goodBit = true) :
    (∀ blocks, contents blocks = w.written →
      (ReadsBack host (Reader.ofChain blocks swap a) vs ↔
        (∀ v ∈ vs, v.Representable) ∧ ¬ Stuck a vs blocks)) ∧
    ∀ chain' w', (Writer.ofChain chain' swap a).insertAll host vs = .ok w' → w'.goodBit = true →
      (a = .cdr →
        (contents chain').take w.written.length = (contents chain).take w.written.length) →
      w'.written = w.written := by
  have hstored : ∀ chain w, (Writer.ofChain chain swap a).insertAll host vs = .ok w →
      w.goodBit = true → encodedSizeAll a 0 vs ≤ (contents chain).length ∧
        w.written = encodeAll host swap a 0 (contents chain) vs ∧
        w.written.length = encodedSizeAll a 0 vs := by
    intro chain w hw hgood
    obtain ⟨-, hfits, hall⟩ := insertAll_stored host vs
      (fun _ => writer_ofChain_at chain swap a) hw hgood
    have hwritten : w.written = encodeAll host swap a 0 (contents chain) vs := hall.written
    refine ⟨hfits, hwritten, ?_⟩
    rw [hwritten]
    exact encodeAll_length host swap a vs 0 (contents chain) hfits
  obtain ⟨hfits, hwritten, hlen⟩ := hstored chain w hw hgood
  constructor
  · intro blocks hblocks
    rw [← readable_iff_not_stuck (by rw [hblocks, hlen])]
    exact readsBack_iff_readable host vs (Reader.ofChain blocks swap a) 0 (contents chain) rfl
      (fun _ => ofChain_at blocks swap a) hfits (hblocks.trans hwritten)
  · intro chain' w' hw' hgood' hmemory
    obtain ⟨-, hwritten', -⟩ := hstored chain' w' hw' hgood'
    rw [hwritten', hwritten]
    apply encodeAll_memory
    rwa [hlen] at hmemory

private def greeting : List Value :=
  [.primitive .octet 7, .primitive .ulong 5,
    .string (some { chars := [104, 105], noNul := by decide })]

/-- Uninitialized memory in three blocks, one of them empty. -/
private def threeBlocks : List (Block UInt8) :=
  [⟨3, [9, 9, 9]⟩, ⟨16, []⟩, ⟨21, List.replicate 20 9⟩]

/-- An octet, an aligned number and a string, swapped, in three blocks: they come back
from one block. -/
theorem round_trip_iff_greeting :
    ∃ w, (Writer.ofChain threeBlocks true .cdr).insertAll .littleEndian greeting = .ok w ∧
      w.goodBit = true ∧ w.written = [7, 9, 9, 9, 0, 0, 0, 5, 0, 0, 0, 3, 104, 105, 0] ∧
      ReadsBack .littleEndian (Reader.ofChain [⟨0, w.written⟩] true .cdr) greeting := by
  refine ⟨_, rfl, rfl, rfl, ?_⟩
  apply ((round_trip_iff .littleEndian true .cdr greeting threeBlocks _ rfl rfl).1 _ rfl).mpr
  constructor
  · intro v hv
    simp only [greeting, List.mem_cons, List.not_mem_nil, or_false] at hv
    rcases hv with rfl | rfl | rfl
    · trivial
    · trivial
    · show 3 < 2 ^ 32
      decide
  · rintro ⟨-, -, front, v, back, heq, hempty, -⟩
    have hv : v ∈ greeting := by rw [heq]; simp
    simp only [greeting, List.mem_cons, List.not_mem_nil, or_false] at hv
    rcases hv with rfl | rfl | rfl <;> exact hempty

private def shortThenEmpty : List Value :=
  [.primitive .short 1, .array .short [] (by decide)]

/-- A number and an empty array of aligned elements: the array is extracted where the chain
has ended. -/
theorem empty_array_not_read_back :
    ¬ ∀ (host : ByteOrder) (swap : Bool) (a : Source.Serializer.Alignment) (vs : List Value)
      (chain : List (Block UInt8)) (w : Writer),
      (Writer.ofChain chain swap a).insertAll host vs = .ok w → w.goodBit = true →
      ∀ blocks, contents blocks = w.written → ReadsBack host (Reader.ofChain blocks swap a) vs := by
  intro claim
  obtain ⟨after, hread, -⟩ := claim .littleEndian false .initialized shortThenEmpty
    [⟨0, [9, 9, 9, 9]⟩] _ rfl rfl [⟨0, [1, 0]⟩] rfl
  cases hread

end OpenDDS.Guarantees.SerializerRoundTrip
