import OpenDDS.Source.SerializerRead

/-!
# Decoding arbitrary bytes

A `Serializer` that reads a chain of blocks received from a peer should never follow a
null `current_`, and should report success only when the whole encoding of a value was
in the chain. Two places miss this. `align_r` reads the address of the current block
before anything looks whether there is one, so an aligned extraction at the end of the
chain is undefined. `read_string` uses the current block after the length prefix, which
may have been the end of the chain, and a prefix that announces more than the chain
holds returns with `good_bit_` still set.
-/
namespace OpenDDS.Guarantees.DecodingSafety
open Library Library.Chain Source.Serializer

variable (host : ByteOrder)

def alignOf : Extraction → Nat
  | .primitive t | .array t _ | .skip _ t => t.align
  | .wchar | .wcharArray _ => 1
  | .string | .wstring => Primitive.ulong.align

/-- Wide characters of two octets each, in front of `bytes`. -/
def CompleteWChars : Nat → List UInt8 → Prop
  | 0, _ => True
  | length + 1, bytes =>
    bytes.head? = some 2 ∧ 3 ≤ bytes.length ∧ CompleteWChars length (bytes.drop 3)

/-- A length prefix at `pad` and everything it announces. -/
def CompleteCounted (swap : Bool) (pad : Nat) (bytes : List UInt8) : Prop :=
  pad + Primitive.ulong.size ≤ bytes.length ∧
  pad + Primitive.ulong.size + announced host swap (bytes.drop pad) ≤ bytes.length

/-- The complete encoding of the extracted value stands in front of `bytes`, which start
at position `p` of the stream. -/
def Complete (swap : Bool) (a : Source.Serializer.Alignment) (p : Nat) (bytes : List UInt8) :
    Extraction → Prop
  | .primitive t => padding a t.align p + t.size ≤ bytes.length
  | .array t length => padding a t.align p + t.size * length.toNat ≤ bytes.length
  | .wchar => CompleteWChars 1 bytes
  | .wcharArray length => CompleteWChars length.toNat bytes
  | .string => CompleteCounted host swap (padding a Primitive.ulong.align p) bytes
  | .wstring => CompleteCounted host swap (padding a Primitive.ulong.align p) bytes
  | .skip n t => padding a t.align p + n.toNat * t.size ≤ bytes.length

/-- The position of a reader: what it has used of its chain. -/
def position (chain : List (Block UInt8)) (r : Reader) : Nat :=
  (contents chain).length - (contents r.current).length

/-- The extraction does not use a null block and reports success only when the value was
there. -/
def Safe (chain : List (Block UInt8)) (r : Reader) (e : Extraction) : Prop :=
  ∃ x after, r.extract host e = .ok (x, after) ∧ (after.goodBit = true →
    Complete host r.swapBytes r.alignment (position chain r) (contents r.current) e)

/-- A length prefix that can be read is followed by a block, and announces no more than
the chain holds. -/
def PrefixMet (p : Nat) (r : Reader) : Prop :=
  let start := padding r.alignment Primitive.ulong.align p
  r.goodBit = true → start + Primitive.ulong.size ≤ (contents r.current).length →
    consume (start + Primitive.ulong.size) r.current ≠ [] ∧
    start + Primitive.ulong.size + announced host r.swapBytes ((contents r.current).drop start) ≤
      (contents r.current).length

/-- What an extraction has to find. -/
def Met (chain : List (Block UInt8)) (r : Reader) (e : Extraction) : Prop :=
  (1 < alignOf e → r.alignment ≠ .none → r.current ≠ []) ∧
  match e with
  | .string | .wstring => PrefixMet host (position chain r) r
  | _ => True

section

variable {r : Reader} {p : Nat}

/-- An aligned read without a length prefix. -/
theorem aligned_safe {α : Type} {al n : Nat} {read : Reader → α × Reader}
    (hal : al = 1 ∨ al = 2 ∨ al = 4 ∨ al = 8) (hat : r.alignment ≠ .none → r.At p)
    (hread : ∀ r, Advanced r (read r).2 n) :
    (r.alignFor al = .error .nullCurrent ∧ ¬ (1 < al → r.alignment ≠ .none → r.current ≠ [])) ∨
    (1 < al → r.alignment ≠ .none → r.current ≠ []) ∧
      ∃ aligned, r.alignFor al = .ok aligned ∧ ((read aligned).2.goodBit = true →
        padding r.alignment al p + n ≤ (contents r.current).length) := by
  by_cases hcur : 1 < al → r.alignment ≠ .none → r.current ≠ []
  · right
    obtain ⟨aligned, hok, hadv⟩ := alignFor_ok hal hat hcur
    refine ⟨hcur, aligned, hok, fun hgood => ?_⟩
    exact ((hadv.trans (hread aligned)).good hgood).2
  · left
    refine ⟨?_, hcur⟩
    have hnull : 1 < al ∧ r.alignment ≠ .none ∧ r.current = [] := by
      simpa [Classical.not_imp] using hcur
    exact alignFor_null hnull.1 hnull.2.1 hnull.2.2

/-- A string is read safely exactly when the chain goes on behind the length prefix and
holds what it announces. -/
theorem readCounted_safe_iff {α : Type} (read : Nat → Reader → α × Reader)
    (hat : r.alignment ≠ .none → r.At p) :
    (∃ dest after, r.readCounted host read = .ok (dest, after) ∧ (after.goodBit = true →
        CompleteCounted host r.swapBytes (padding r.alignment Primitive.ulong.align p)
          (contents r.current))) ↔
      (1 < Primitive.ulong.align → r.alignment ≠ .none → r.current ≠ []) ∧ PrefixMet host p r := by
  by_cases hcur : 1 < Primitive.ulong.align → r.alignment ≠ .none → r.current ≠ []
  · obtain ⟨mid, hmid, heq⟩ := readCounted_eq host read hat hcur
    rw [heq, and_iff_right hcur]
    have hleft : totalLength mid.current = (contents r.current).length -
        (padding r.alignment Primitive.ulong.align p + Primitive.ulong.size) := by
      rw [totalLength, hmid.contents, List.length_drop]
    unfold PrefixMet CompleteCounted
    dsimp only
    rw [← hmid.current, hleft]
    cases hgood : mid.goodBit with
    | false =>
      have hshort : r.goodBit = true →
          ¬ padding r.alignment Primitive.ulong.align p + Primitive.ulong.size ≤
            (contents r.current).length := by
        intro hr hle
        rw [hmid.good_of_le hr hle] at hgood
        cases hgood
      constructor
      · intro _ hr hle
        exact absurd hle (hshort hr)
      · intro _
        exact ⟨none, mid, rfl, fun h => by rw [hgood] at h; cases h⟩
    | true =>
      obtain ⟨hr, hle⟩ := hmid.good hgood
      simp only [if_true, hr, hle, forall_const, true_and]
      by_cases hend : mid.current = []
      · simp [hend]
      · have hempty : mid.current.isEmpty = false := by simpa using hend
        simp only [hempty, Bool.false_eq_true, if_false, ne_eq, hend, not_false_eq_true, true_and]
        split
        · constructor
          · omega
          · intro hall
            exact ⟨_, _, rfl, fun _ => hall⟩
        · constructor
          · rintro ⟨dest, after, h, hall⟩
            cases h
            exact hall hgood
          · omega
  · have hnull : 1 < Primitive.ulong.align ∧ r.alignment ≠ .none ∧ r.current = [] := by
      simpa [Classical.not_imp] using hcur
    constructor
    · rintro ⟨dest, after, h, -⟩
      simp [Reader.readCounted, alignFor_null hnull.1 hnull.2.1 hnull.2.2] at h
    · intro h
      exact absurd h.1 hcur

theorem readWChar_complete (hgood : (r.readWChar host).2.goodBit = true) :
    CompleteWChars 1 (contents r.current) ∧ r.goodBit = true ∧ Moved r (r.readWChar host).2 3 := by
  have hlen : Advanced r (r.bufferRead 1 false).2 1 := bufferRead_advanced r (by simp)
  unfold Reader.readWChar at hgood ⊢
  dsimp only at hgood ⊢
  split at hgood
  · rename_i htwo
    rw [if_pos htwo]
    have hall := hlen.trans (bufferRead_advanced (r.bufferRead 1 false).2
      fun _ : swapBE host = true => (by omega : 2 ≤ 16))
    obtain ⟨hr, hle⟩ := hall.good hgood
    rw [bufferRead_bytes r (by simp) (by omega)] at htwo
    refine ⟨⟨?_, by omega, trivial⟩, hr, hall.toMoved⟩
    cases hbytes : contents r.current with
    | nil => simp [hbytes] at hle
    | cons b rest => simpa [hbytes, ordered] using htwo
  · cases hgood

theorem readWCharArray_complete (length : Nat)
    (hgood : (r.readWCharArray host length).2.goodBit = true) :
    CompleteWChars length (contents r.current) := by
  induction length generalizing r with
  | zero => trivial
  | succ length ih =>
    unfold Reader.readWCharArray at hgood
    dsimp only at hgood
    split at hgood
    · rename_i hfirst
      obtain ⟨hone, -, hmoved⟩ := readWChar_complete host hfirst
      refine ⟨hone.1, hone.2.1, ?_⟩
      have hrest := ih hgood
      rwa [hmoved.contents] at hrest
    · rename_i hfirst
      exact absurd hgood hfirst

theorem map_iff {α : Type} (res : Except Fault (α × Reader)) (wrap : α → Datum)
    {P : Reader → Prop} :
    (∃ x after, res.map (fun (dest, r) => (wrap dest, r)) = .ok (x, after) ∧ P after) ↔
      ∃ dest after, res = .ok (dest, after) ∧ P after := by
  constructor
  · rintro ⟨x, after, h, hp⟩
    obtain ⟨⟨dest, moved⟩, hres, hx⟩ := Folds.map_eq_ok h
    cases hx
    exact ⟨dest, after, hres, hp⟩
  · rintro ⟨dest, after, rfl, hp⟩
    exact ⟨_, _, rfl, hp⟩

/-- One extraction is safe exactly when it finds what it needs. -/
theorem extract_safe_iff {chain : List (Block UInt8)} {e : Extraction}
    (hat : r.alignment ≠ .none → r.At (position chain r)) :
    Safe host chain r e ↔ Met host chain r e := by
  cases e with
  | primitive t =>
    have hread := fun r : Reader => bufferRead_advanced r
      fun _ : t.swap r.swapBytes = true => t.size_le
    simp only [Safe, Met, Reader.extract, Reader.readPrimitive, alignOf, and_true]
    rcases aligned_safe t.align_cases hat hread with ⟨herr, hnot⟩ | ⟨hcur, aligned, hok, hgood⟩
    · rw [herr]
      refine iff_of_false ?_ hnot
      rintro ⟨_, _, h, _⟩
      cases h
    · simp only [hok]
      exact iff_of_true ⟨_, _, rfl, hgood⟩ hcur
  | array t length =>
    have hread := fun r : Reader => readArray_advanced r t.size_le length.toNat r.swapBytes
    simp only [Safe, Met, Reader.extract, Reader.readPrimitiveArray, alignOf, and_true]
    rcases aligned_safe t.align_cases hat hread with ⟨herr, hnot⟩ | ⟨hcur, aligned, hok, hgood⟩
    · rw [herr]
      refine iff_of_false ?_ hnot
      rintro ⟨_, _, h, _⟩
      cases h
    · simp only [hok]
      exact iff_of_true ⟨_, _, rfl, hgood⟩ hcur
  | wchar =>
    refine iff_of_true ⟨_, _, rfl, fun hgood => ?_⟩ ⟨by simp [alignOf], trivial⟩
    exact (readWChar_complete host hgood).1
  | wcharArray length =>
    refine iff_of_true ⟨_, _, rfl, fun hgood => ?_⟩ ⟨by simp [alignOf], trivial⟩
    exact readWCharArray_complete host length.toNat hgood
  | string =>
    exact (map_iff (r.readString host) Datum.string).trans (readCounted_safe_iff host
      (fun length r => r.readArray 1 length r.swapBytes) hat)
  | wstring =>
    exact (map_iff (r.readWString host) Datum.wstring).trans (readCounted_safe_iff host
      (fun bytecount r => r.readWChars host (bytecount / 2)) hat)
  | skip n t =>
    have hread := fun r : Reader => show Advanced r ((), r.skipBytes (n.toNat * t.size)).2 _ from
      skipBytes_advanced r (n.toNat * t.size)
    simp only [Safe, Met, Reader.extract, Reader.skip, alignOf, and_true]
    rcases aligned_safe t.align_cases hat hread with ⟨herr, hnot⟩ | ⟨hcur, aligned, hok, hgood⟩
    · rw [show min t.size maxAlign = t.align from rfl, herr]
      refine iff_of_false ?_ hnot
      rintro ⟨_, _, h, _⟩
      cases h
    · rw [show min t.size maxAlign = t.align from rfl, hok]
      exact iff_of_true ⟨_, _, rfl, hgood⟩ hcur

end

def Located (chain : List (Block UInt8)) (r : Reader) : Prop :=
  (contents r.current).length ≤ (contents chain).length ∧
  (r.alignment ≠ .none → r.At (position chain r))

theorem Located.moved {chain : List (Block UInt8)} {r after : Reader} {n : Nat}
    (h : Located chain r) (hm : Moved r after n) : Located chain after := by
  obtain ⟨hle, hat⟩ := h
  have hlen : (contents after.current).length = (contents r.current).length - n := by
    rw [hm.contents, List.length_drop]
  refine ⟨by omega, fun ha => ?_⟩
  rw [hm.alignment] at ha
  by_cases hn : n ≤ (contents r.current).length
  · have hpos : position chain after = position chain r + n := by
      unfold position
      omega
    rw [hpos]
    exact hm.position ha _ (hat ha)
  · -- the chain is used up, and no block is left to stand in
    have hnil : after.current = [] := by
      rw [hm.current]
      exact consume_of_length_lt (by omega)
    simp [Reader.At, hnil]

theorem extractAll_located {chain : List (Block UInt8)} (es : List Extraction) (r : Reader)
    (h : Located chain r) {xs : List Datum} {after : Reader}
    (hrun : r.extractAll host es = .ok (xs, after)) : Located chain after := by
  induction es generalizing r xs with
  | nil =>
    cases hrun
    exact h
  | cons e es ih =>
    unfold Reader.extractAll at hrun
    cases hfirst : r.extract host e with
    | error fault => simp [hfirst] at hrun
    | ok first =>
      obtain ⟨x, mid⟩ := first
      simp only [hfirst] at hrun
      cases hrest : mid.extractAll host es with
      | error fault => simp [hrest] at hrun
      | ok rest =>
        simp only [hrest] at hrun
        cases hrun
        obtain ⟨n, hn⟩ := extract_moved host hfirst
        exact ih mid (h.moved hn) hrest

/-- `P` holds of every extraction of a run and of the reader in front of it. -/
def EveryStep (chain : List (Block UInt8)) (swap : Bool) (a : Source.Serializer.Alignment)
    (es : List Extraction)
    (P : Reader → Extraction → Prop) : Prop :=
  ∀ done e rest xs r, es = done ++ e :: rest →
    (Reader.ofChain chain swap a).extractAll host done = .ok (xs, r) → P r e

/-- Along every sequence of extractions from every chain, the steps are safe exactly when
none aligns at the end of the chain and every length prefix is followed by what it
announces and by a block. -/
theorem safe_iff_meets (chain : List (Block UInt8)) (swap : Bool) (a : Source.Serializer.Alignment)
    (es : List Extraction) :
    EveryStep host chain swap a es (Safe host chain) ↔
      EveryStep host chain swap a es (Met host chain) := by
  have hiff : ∀ done xs r e, (Reader.ofChain chain swap a).extractAll host done = .ok (xs, r) →
      (Safe host chain r e ↔ Met host chain r e) := by
    intro done xs r e hrun
    have hstart : Located chain (Reader.ofChain chain swap a) := by
      refine ⟨le_rfl, fun _ => ?_⟩
      have hzero : position chain (Reader.ofChain chain swap a) = 0 := Nat.sub_self _
      rw [hzero]
      exact ofChain_at chain swap a
    exact extract_safe_iff host (extractAll_located host done _ hstart hrun).2
  constructor
  · intro h done e rest xs r heq hrun
    exact (hiff done xs r e hrun).mp (h done e rest xs r heq hrun)
  · intro h done e rest xs r heq hrun
    exact (hiff done xs r e hrun).mpr (h done e rest xs r heq hrun)

/-- A prefix that announces five characters with one behind it: the read reports success
without a string. -/
theorem truncated_string_succeeds :
    ¬ ∀ (host : ByteOrder) (chain : List (Block UInt8)) (swap : Bool)
      (a : Source.Serializer.Alignment)
      (es : List Extraction), EveryStep host chain swap a es (Safe host chain) := by
  intro claim
  obtain ⟨x, after, hread, hall⟩ := claim .littleEndian [⟨0, [5, 0, 0, 0, 97]⟩] false .none
    [.string] [] .string [] [] _ rfl rfl
  have hgood : after.goodBit = true := by
    cases hread
    rfl
  have hcomplete := (hall hgood).2
  revert hcomplete
  decide

end OpenDDS.Guarantees.DecodingSafety
