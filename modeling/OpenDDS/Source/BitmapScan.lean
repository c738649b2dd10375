import OpenDDS.Source.BitmapInsert

/-!
The loop of `insert(value, num_bits, bits)` as a whole. An iteration passes over a word of
zeros, opens or continues a run at a set bit, passes a zero bit, or closes the run it is in
(`scanStep_cases`). Wherever the jumps lead, only decoded positions are added (`Decoding`);
as long as no jump is cut off, the positions are passed in order and nothing is lost
(`ScanInv`).
-/
namespace OpenDDS.Source.DisjointSequence
open Library.RangeList SequenceNumber

variable {s : BitmapScan}

section

variable {old : List Range} {val : Int} {numBits : Nat} {bits : Nat → BitVec 32}

/-- What holds of the scan wherever its jumps lead: it adds decoded positions only. -/
structure Decoding (old : List Range) (val : Int) (numBits : Nat) (bits : Nat → BitVec 32)
    (s : BitmapScan) : Prop where
  phase : s.bit ≤ 32 ∧ s.i % 32 = s.bit % 32
  word : s.bit ≠ 0 → s.bit ≠ 32 → s.x = bits (s.i / 32)
  adds : ∀ n, Covers s.iter.seqs n → Covers old n ∨ ∃ k : Nat, n = val + k ∧ Decodes bits numBits k
  run : s.rangeStart = 0 ∨ ∃ start : Nat, (start < s.i ∧ start < numBits) ∧
    s.rangeStart = val + start ∧
    ∀ k, start ≤ k → k < s.i → k < numBits → Decodes bits numBits k

/-- What one pass over the first `i` bits has done. -/
structure ScanInv (old : List Range) (val : Int) (numBits : Nat) (bits : Nat → BitVec 32)
    (s : BitmapScan) : Prop extends Decoding old val numBits bits s where
  wellFormed : WellFormed s.iter.seqs
  keeps : ∀ n, Covers old n → Covers s.iter.seqs n
  iterator : ∀ x ∈ s.iter.rest.head?, x.1 ≤ val + s.i ∧ (s.rangeStart ≠ 0 → x.1 ≤ s.rangeStart)
  seen : ∀ k : Nat, k < s.i → k < numBits → bitSet bits k = true →
    Covers s.iter.seqs (val + k) ∨ (s.rangeStart ≠ 0 ∧ s.rangeStart ≤ val + k)

/-- The operands for which no index of the scan wraps. -/
structure ScanBounds (old : List Range) (val : Int) (numBits : Nat) : Prop where
  base : 1 ≤ val
  zero : val = 1 → Covers old 0 → Covers old 1
  last : val + numBits ≤ maxValue
  words : numBits + 32 ≤ 2 ^ 32

theorem scanStart_decoding : Decoding old val numBits bits (scanStart old) where
  phase := by simp [scanStart]
  word := by simp [scanStart]
  adds := fun n h => .inl (by simpa [scanStart] using h)
  run := by simp [scanStart]

theorem scanStart_inv (wf : WellFormed old) : ScanInv old val numBits bits (scanStart old) where
  toDecoding := scanStart_decoding
  wellFormed := by simpa [scanStart] using wf
  keeps := by simp [scanStart]
  iterator := by simp [scanStart]
  seen := by simp [scanStart]

theorem Decoding.insertRun (inv : Decoding old val numBits bits s) (hbase : 1 ≤ val)
    {start stop : Nat} (hdec : ∀ k, start ≤ k → k < stop → Decodes bits numBits k) (n : Int)
    (h : Covers (insertBitmapRange s.iter (val + start, val + stop - 1)).2.seqs n) :
    Covers old n ∨ ∃ k : Nat, n = val + k ∧ Decodes bits numBits k := by
  rcases insertBitmapRange_covers (by simp only; omega) h with h | ⟨h₁, h₂⟩
  · exact inv.adds n h
  · obtain ⟨k, hk⟩ := Int.eq_ofNat_of_zero_le (show 0 ≤ n - val by omega)
    exact .inr ⟨k, by omega, hdec k (by omega) (by omega)⟩

theorem ScanInv.insertRun (inv : ScanInv old val numBits bits s) (hb : ScanBounds old val numBits)
    {start stop : Nat} (hlt : start < stop) (hstop : stop ≤ numBits)
    (hiter : ∀ x ∈ s.iter.rest.head?, x.1 ≤ val + start)
    (hdec : ∀ k, start ≤ k → k < stop → Decodes bits numBits k) {result : Bool × Iter}
    (hresult : insertBitmapRange s.iter (val + start, val + stop - 1) = result) :
    WellFormed result.2.seqs ∧
      (∀ n, Covers result.2.seqs n ↔ Covers s.iter.seqs n ∨ (val + start ≤ n ∧ n < val + stop)) ∧
      (result.1 = true ↔ ∃ n, (val + start ≤ n ∧ n < val + stop) ∧ ¬ Covers s.iter.seqs n) ∧
      (∀ n, Covers result.2.seqs n →
        Covers old n ∨ ∃ k : Nat, n = val + k ∧ Decodes bits numBits k) ∧
      ∃ x rest, result.2.rest = x :: rest ∧ x.1 ≤ val + start ∧ val + stop - 1 ≤ x.2 := by
  have hlast := hb.last
  have hbase := hb.base
  have hzero : val + start = 1 → Covers s.iter.seqs 0 → Covers s.iter.seqs 1 := by
    intro hone hcov
    rcases inv.adds 0 hcov with h | ⟨k, h, -⟩
    · exact inv.keeps 1 (hb.zero (by omega) h)
    · omega
  have hlt' : ∀ n, n ≤ val + stop - 1 ↔ n < val + stop := fun n => by omega
  obtain ⟨hwf, hcov, hfound⟩ := insertBitmapRange_spec s.iter
    (val + start, val + stop - 1) inv.wellFormed (by simp only; omega) hzero
    (by simp only; omega) (by simp only; omega) hiter
  have hgrew := insertBitmapRange_grew s.iter (val + start, val + stop - 1) inv.wellFormed
    (by simp only; omega) hzero (by simp only; omega) hiter
  rw [hresult] at hwf hcov hfound hgrew
  simp only [hlt'] at hgrew
  refine ⟨hwf, fun n => ?_, hgrew, fun n h => ?_, hfound⟩
  · rw [hcov]
    simp only [hlt']
  · rw [← hresult] at h
    exact inv.toDecoding.insertRun hbase hdec n h

theorem Decoding.current (inv : Decoding old val numBits bits s) :
    (if s.bit = 32 then 0 else s.bit) = s.i % 32 ∧
    (if (if s.bit = 32 then 0 else s.bit) = 0 then bits (s.i / 32) else s.x) = bits (s.i / 32) := by
  have hphase := inv.phase
  by_cases h32 : s.bit = 32
  · simp only [h32, if_true]
    exact ⟨by omega, trivial⟩
  · simp only [h32, if_false]
    refine ⟨by omega, ?_⟩
    by_cases h0 : s.bit = 0
    · simp [h0]
    · simp [h0, inv.word h0 h32]

/-- A zero word is passed over; a run that was open stays open across it. -/
private theorem Decoding.skipWord (inv : Decoding old val numBits bits s) (hi : s.i < numBits)
    (h0 : s.i % 32 = 0) (hz : bits (s.i / 32) = 0) (x : BitVec 32) :
    Decoding old val numBits bits { s with i := s.i + 32, x := x, bit := 32 } where
  phase := by simp only; omega
  word := by simp
  adds := inv.adds
  run := by
    refine inv.run.imp id fun ⟨start, hlt, hstart, hdec⟩ => ⟨start, ⟨by simp only; omega, hlt.2⟩, hstart, ?_⟩
    intro k h₁ h₂ hk
    simp only at h₂
    by_cases hbefore : k < s.i
    · exact hdec k h₁ hbefore hk
    · have hword : k / 32 = s.i / 32 := by omega
      refine Decodes.carried hk (by omega) (by rw [hword]; exact hz) ?_
      exact hdec _ (by omega) (by omega) (by omega)

private theorem ScanInv.skipWord (inv : ScanInv old val numBits bits s) (hi : s.i < numBits)
    (h0 : s.i % 32 = 0) (hz : bits (s.i / 32) = 0) (x : BitVec 32) :
    ScanInv old val numBits bits { s with i := s.i + 32, x := x, bit := 32 } where
  toDecoding := inv.toDecoding.skipWord hi h0 hz x
  wellFormed := inv.wellFormed
  keeps := inv.keeps
  iterator := fun y hy => by
    have := inv.iterator y hy
    exact ⟨by simp only; omega, this.2⟩
  seen := by
    intro k hk hn hbit
    simp only at hk
    by_cases hbefore : k < s.i
    · exact inv.seen k hbefore hn hbit
    · rw [bitSet, show k / 32 = s.i / 32 by omega, hz] at hbit
      simp at hbit

/-- A set bit opens a run or continues one. -/
private theorem Decoding.setBit (inv : Decoding old val numBits bits s) (hbase : 1 ≤ val)
    (hi : s.i < numBits) (hset : bitSet bits s.i = true) : Decoding old val numBits bits
      { s with i := s.i + 1, x := bits (s.i / 32), bit := s.i % 32 + 1,
               rangeStart := if s.rangeStart = 0 then val + s.i else s.rangeStart } where
  adds := inv.adds
  phase := by simp only; omega
  word := by
    simp only
    intro _ h32
    congr 1
    omega
  run := by
    right
    rcases inv.run with h0 | ⟨start, hlt, hstart, hdec⟩
    · refine ⟨s.i, ⟨by simp, hi⟩, by simp [h0], fun k h₁ h₂ hk => ?_⟩
      simp only at h₂
      rw [show k = s.i by omega]
      exact Decodes.set hi hset
    · have hne : s.rangeStart ≠ 0 := by omega
      refine ⟨start, ⟨by simp only; omega, hlt.2⟩, by rw [if_neg hne, hstart], fun k h₁ h₂ hk => ?_⟩
      simp only at h₂
      by_cases hk' : k < s.i
      · exact hdec k h₁ hk' hk
      · rw [show k = s.i by omega]
        exact Decodes.set hi hset

private theorem ScanInv.setBit (inv : ScanInv old val numBits bits s)
    (hb : ScanBounds old val numBits) (hi : s.i < numBits) (hset : bitSet bits s.i = true) :
    ScanInv old val numBits bits
      { s with i := s.i + 1, x := bits (s.i / 32), bit := s.i % 32 + 1,
               rangeStart := if s.rangeStart = 0 then val + s.i else s.rangeStart } where
  toDecoding := inv.toDecoding.setBit hb.base hi hset
  wellFormed := inv.wellFormed
  keeps := inv.keeps
  iterator := fun y hy => by
    have h := inv.iterator y hy
    refine ⟨by simp only; omega, fun _ => ?_⟩
    by_cases h0 : s.rangeStart = 0
    · simpa [h0] using h.1
    · simpa [h0] using h.2 h0
  seen := by
    intro k hk hn hbit
    have hbase := hb.base
    by_cases h0 : s.rangeStart = 0
    · by_cases hk' : k < s.i
      · rcases inv.seen k hk' hn hbit with h | h
        · exact .inl h
        · exact absurd h0 h.1
      · simp only [h0, if_true]
        exact .inr ⟨by omega, by omega⟩
    · simp only [h0, if_false]
      by_cases hk' : k < s.i
      · exact inv.seen k hk' hn hbit
      · rcases inv.run with h | ⟨start, hlt, hstart, -⟩
        · exact absurd h h0
        · exact .inr ⟨h0, by omega⟩

/-- A zero bit outside a run changes nothing but the position. -/
private theorem Decoding.clearBit (inv : Decoding old val numBits bits s) (hrun : s.rangeStart = 0) :
    Decoding old val numBits bits
      { s with i := s.i + 1, x := bits (s.i / 32), bit := s.i % 32 + 1 } where
  phase := by simp only; omega
  word := by
    simp only
    intro _ h32
    congr 1
    omega
  adds := inv.adds
  run := Or.inl hrun

private theorem ScanInv.clearBit (inv : ScanInv old val numBits bits s)
    (hclear : bitSet bits s.i = false) (hrun : s.rangeStart = 0) : ScanInv old val numBits bits
      { s with i := s.i + 1, x := bits (s.i / 32), bit := s.i % 32 + 1 } where
  toDecoding := inv.toDecoding.clearBit hrun
  wellFormed := inv.wellFormed
  keeps := inv.keeps
  iterator := fun y hy => by
    have h := inv.iterator y hy
    exact ⟨by simp only; omega, h.2⟩
  seen := by
    intro k hk hn hbit
    simp only at hk
    by_cases hk' : k < s.i
    · exact inv.seen k hk' hn hbit
    · rw [show k = s.i by omega, hclear] at hbit
      cases hbit

/-- Where the scan goes on behind a run that was merged into `x`: at the next position, or
behind `x` when that reaches beyond the run. -/
theorem closeRun_eq {result : Bool × Iter} {x : Range} {rest : List Range}
    (hresult : insertBitmapRange s.iter (ofValue s.rangeStart, ofValue (val + s.i - 1)) = result)
    (hrest : result.2.rest = x :: rest) (hge : val + s.i - 1 ≤ x.2)
    (hreach : x.2 + 1 < val + 2 ^ 32) (hi : s.i + 1 < 2 ^ 32) (hx : s.x = bits (s.i / 32))
    (hbit : s.bit = s.i % 32) : ∃ (i bit : Nat) (word : BitVec 32),
      (closeRun val bits s).advance =
        { i := i, x := word, bit := bit, rangeStart := 0, iter := result.2,
          inserted := s.inserted || result.1 } ∧
      (i : Int) = max (x.2 - val + 1) (s.i + 1) ∧ (bit ≤ 32 ∧ i % 32 = bit % 32) ∧
      (bit ≠ 0 → bit ≠ 32 → word = bits (i / 32)) := by
  unfold closeRun
  simp only [hresult, hrest]
  split
  · obtain ⟨jump, hjump⟩ := Int.eq_ofNat_of_zero_le (show 0 ≤ x.2 - val by omega)
    have hnext : toULong (x.2 - val) = jump := by
      unfold toULong
      omega
    simp only [hnext, BitmapScan.advance]
    rw [Nat.mod_eq_of_lt (by omega)]
    refine ⟨_, _, _, rfl, by omega, by omega, ?_⟩
    intro _ h32
    have hword : (jump + 1) / 32 = jump / 32 := by omega
    rw [hword]
    split
    · rfl
    · rw [hx]
      congr 1
      omega
  · simp only [BitmapScan.advance]
    refine ⟨_, _, _, rfl, by omega, by omega, ?_⟩
    intro _ h32
    rw [hx]
    congr 1
    omega

section

variable (inv : ScanInv old val numBits bits s) (hb : ScanBounds old val numBits)
  (hi : s.i < numBits)
include inv hb hi

theorem ScanInv.closing (hrun : s.rangeStart ≠ 0) (hx : s.x = bits (s.i / 32))
    (hbit : s.bit = s.i % 32)
    (hahead : ∃ n, val + s.i ≤ n ∧ n < val + 2 ^ 32 ∧ ¬ Covers s.iter.seqs n) :
    ∃ (result : Bool × Iter) (start i bit : Nat) (word : BitVec 32) (x : Range),
      (closeRun val bits s).advance =
        { i := i, x := word, bit := bit, rangeStart := 0, iter := result.2,
          inserted := s.inserted || result.1 } ∧
      insertBitmapRange s.iter (val + start, val + s.i - 1) = result ∧
      s.rangeStart = val + start ∧ start < s.i ∧
      WellFormed result.2.seqs ∧
      (∀ n, Covers result.2.seqs n ↔ Covers s.iter.seqs n ∨ (val + start ≤ n ∧ n < val + s.i)) ∧
      (result.1 = true ↔ ∃ n, (val + start ≤ n ∧ n < val + s.i) ∧ ¬ Covers s.iter.seqs n) ∧
      (∀ n, Covers result.2.seqs n →
        Covers old n ∨ ∃ k : Nat, n = val + k ∧ Decodes bits numBits k) ∧
      (result.2.rest.head? = some x ∧ x ∈ result.2.seqs ∧ x.1 ≤ val + start ∧
        val + s.i - 1 ≤ x.2 ∧ x.2 + 1 < val + 2 ^ 32) ∧
      (i : Int) = max (x.2 - val + 1) (s.i + 1) ∧ (bit ≤ 32 ∧ i % 32 = bit % 32) ∧
      (bit ≠ 0 → bit ≠ 32 → word = bits (i / 32)) := by
  have hbase := hb.base
  have hwords := hb.words
  obtain h0 | ⟨start, hlt, hstart, hdec⟩ := inv.run
  · exact absurd h0 hrun
  have hargs : insertBitmapRange s.iter (ofValue s.rangeStart, ofValue (val + s.i - 1)) =
      insertBitmapRange s.iter (val + start, val + s.i - 1) := by
    rw [ofValue_of_pos (by omega), ofValue_of_pos (by omega), hstart]
  generalize hresult : insertBitmapRange s.iter (val + start, val + s.i - 1) = result at hargs
  obtain ⟨hwf, hcov, hgrew, hadds, x, rest, hrest, hxlow, hxhigh⟩ :=
    inv.insertRun hb hlt.1 hi.le (fun y hy => hstart ▸ (inv.iterator y hy).2 hrun)
      (fun k h₁ h₂ => hdec k h₁ h₂ (by omega)) hresult
  have hxmem : x ∈ result.2.seqs := by simp [Iter.seqs, hrest]
  have hxreach : x.2 + 1 < val + 2 ^ 32 := by
    obtain ⟨n, hlow, hhigh, hout⟩ := hahead
    by_contra hge
    rcases (hcov n).mp ⟨x, hxmem, by omega, by omega⟩ with h | h
    · exact hout h
    · omega
  obtain ⟨i, bit, word, heq, hi', hphase, hword⟩ :=
    closeRun_eq hargs hrest hxhigh hxreach (by omega) hx hbit
  exact ⟨result, start, i, bit, word, x, heq, hresult, hstart, hlt.1, hwf, hcov, hgrew, hadds,
    ⟨by rw [hrest]; rfl, hxmem, hxlow, hxhigh, hxreach⟩, hi', hphase, hword⟩

private theorem ScanInv.closeRun (hclear : bitSet bits s.i = false) (hrun : s.rangeStart ≠ 0)
    (hx : s.x = bits (s.i / 32)) (hbit : s.bit = s.i % 32)
    (hahead : ∃ n, val + s.i ≤ n ∧ n < val + 2 ^ 32 ∧ ¬ Covers s.iter.seqs n) :
    ScanInv old val numBits bits (closeRun val bits s).advance ∧
      s.i < (closeRun val bits s).advance.i := by
  obtain ⟨result, start, i, bit, word, x, heq, -, hstart, hlt, hwf, hcov, -, hadds,
    ⟨hrest, hxmem, hxlow, hxhigh, -⟩, hi', hphase, hword⟩ := inv.closing hb hi hrun hx hbit hahead
  rw [heq]
  refine ⟨⟨⟨hphase, hword, hadds, .inl rfl⟩, hwf,
    fun n h => (hcov n).mpr (.inl (inv.keeps n h)), ?_, ?_⟩, by simp only; omega⟩
  · intro y hy
    rw [hrest] at hy
    obtain rfl : x = y := by simpa using hy
    exact ⟨by simp only; omega, by simp⟩
  · intro k hk hn hk'
    simp only at hk
    left
    by_cases hbefore : k < s.i
    · refine (hcov _).mpr ?_
      rcases inv.seen k hbefore hn hk' with h | h
      · exact .inl h
      · exact .inr ⟨by omega, by omega⟩
    · have hne : k ≠ s.i := by
        rintro rfl
        rw [hclear] at hk'
        cases hk'
      exact ⟨x, hxmem, by omega, by omega⟩

end

theorem scanStep_cases (inv : Decoding old val numBits bits s) (hwords : numBits + 32 ≤ 2 ^ 32)
    (hi : s.i < numBits) : (s.i % 32 = 0 ∧ bits (s.i / 32) = 0 ∧
      scanStep val bits s = { s with i := s.i + 32, x := bits (s.i / 32), bit := 32 }) ∨
    (bitSet bits s.i = true ∧
      scanStep val bits s =
        { s with i := s.i + 1, x := bits (s.i / 32), bit := s.i % 32 + 1,
                 rangeStart := if s.rangeStart = 0 then val + s.i else s.rangeStart }) ∨
    (bitSet bits s.i = false ∧ s.rangeStart = 0 ∧
      scanStep val bits s =
        { s with i := s.i + 1, x := bits (s.i / 32), bit := s.i % 32 + 1 }) ∨
    (bitSet bits s.i = false ∧ ¬ (s.i % 32 = 0 ∧ bits (s.i / 32) = 0) ∧ s.rangeStart ≠ 0 ∧
      scanStep val bits s =
        (closeRun val bits { s with bit := s.i % 32, x := bits (s.i / 32) }).advance) := by
  obtain ⟨hbit, hx⟩ := inv.current
  have hmsb : (bits (s.i / 32)).getMsbD (s.i % 32) = bitSet bits s.i := rfl
  unfold scanStep
  simp only [hx]
  rw [hbit, hmsb]
  split
  · rename_i hzero
    simp only [BitmapScan.advance]
    rw [show ((s.i + 31) % 2 ^ 32 + 1) % 2 ^ 32 = s.i + 32 by omega]
    exact .inl ⟨hzero.1, hzero.2, rfl⟩
  · rename_i hzero
    split
    · rename_i hset
      simp only [BitmapScan.advance]
      rw [Nat.mod_eq_of_lt (show s.i + 1 < 2 ^ 32 by omega)]
      exact .inr (.inl ⟨hset, rfl⟩)
    · rename_i hclear
      have hclear : bitSet bits s.i = false := by simpa using hclear
      split
      · rename_i hrun
        exact .inr (.inr (.inr ⟨hclear, hzero, hrun, rfl⟩))
      · rename_i hrun
        simp only [BitmapScan.advance]
        rw [Nat.mod_eq_of_lt (show s.i + 1 < 2 ^ 32 by omega)]
        exact .inr (.inr (.inl ⟨hclear, by simpa using hrun, rfl⟩))

theorem Decoding.resetBit (inv : Decoding old val numBits bits s) :
    Decoding old val numBits bits { s with bit := s.i % 32, x := bits (s.i / 32) } :=
  { inv with phase := by simp only; omega, word := by simp }

theorem ScanInv.resetBit (inv : ScanInv old val numBits bits s) :
    ScanInv old val numBits bits { s with bit := s.i % 32, x := bits (s.i / 32) } :=
  { inv with toDecoding := inv.toDecoding.resetBit }

/-- Closing a run adds it, wherever the scan goes on. -/
private theorem Decoding.closeRun (inv : Decoding old val numBits bits s) (hbase : 1 ≤ val)
    (hi : s.i < numBits) (hwords : numBits + 32 ≤ 2 ^ 32) (hrun : s.rangeStart ≠ 0)
    (hx : s.x = bits (s.i / 32)) (hbit : s.bit = s.i % 32) :
    Decoding old val numBits bits (closeRun val bits s).advance := by
  obtain h0 | ⟨start, hlt, hstart, hdec⟩ := inv.run
  · exact absurd h0 hrun
  have hargs : insertBitmapRange s.iter (ofValue s.rangeStart, ofValue (val + s.i - 1)) =
      insertBitmapRange s.iter (val + start, val + s.i - 1) := by
    rw [ofValue_of_pos (by omega), ofValue_of_pos (by omega), hstart]
  have hadds := inv.insertRun hbase fun (k : Nat) h₁ (h₂ : k < s.i) => hdec k h₁ h₂ (by omega)
  -- The next position, with the word it lies in loaded.
  have hnext : ∀ (next : Nat) (x : BitVec 32), next < 2 ^ 32 → x = bits (next / 32) →
      (next % 32 + 1 ≤ 32 ∧ (next + 1) % 2 ^ 32 % 32 = (next % 32 + 1) % 32) ∧
      (next % 32 + 1 ≠ 0 → next % 32 + 1 ≠ 32 → x = bits ((next + 1) % 2 ^ 32 / 32)) := by
    intro next x hlt hx
    refine ⟨by omega, fun _ h32 => ?_⟩
    rw [hx]
    congr 1
    omega
  unfold DisjointSequence.closeRun
  dsimp only
  rw [hargs]
  generalize insertBitmapRange s.iter (val + start, val + s.i - 1) = result at hadds
  split
  · obtain ⟨hphase, hword⟩ := hnext s.i s.x (by omega) hx
    exact ⟨by simpa [BitmapScan.advance, hbit] using hphase,
      by simpa [BitmapScan.advance, hbit] using hword, hadds, .inl rfl⟩
  · rename_i it rest hrest
    split
    · obtain ⟨hphase, hword⟩ := hnext (toULong (it.2 - val))
        (if toULong (it.2 - val) / 32 ≠ s.i / 32 then bits (toULong (it.2 - val) / 32) else s.x)
        (by unfold toULong; omega) (by
          split
          · rfl
          · rename_i hsame
            rw [hx, not_not.mp hsame])
      exact ⟨hphase, hword, hadds, .inl rfl⟩
    · obtain ⟨hphase, hword⟩ := hnext s.i s.x (by omega) hx
      exact ⟨by simpa [BitmapScan.advance, hbit] using hphase,
        by simpa [BitmapScan.advance, hbit] using hword, hadds, .inl rfl⟩

theorem scanStep_decoding (inv : Decoding old val numBits bits s) (hbase : 1 ≤ val)
    (hwords : numBits + 32 ≤ 2 ^ 32) (hi : s.i < numBits) :
    Decoding old val numBits bits (scanStep val bits s) := by
  obtain ⟨h0, hz, heq⟩ | ⟨hset, heq⟩ | ⟨hclear, hrun, heq⟩ | ⟨hclear, hz, hrun, heq⟩ :=
    scanStep_cases inv hwords hi
  · rw [heq]
    exact inv.skipWord hi h0 hz _
  · rw [heq]
    exact inv.setBit hbase hi hset
  · rw [heq]
    exact inv.clearBit hrun
  · rw [heq]
    exact inv.resetBit.closeRun hbase hi hwords hrun rfl rfl

/-- One iteration keeps the invariant and moves on. -/
theorem scanStep_inv (inv : ScanInv old val numBits bits s) (hb : ScanBounds old val numBits)
    (hi : s.i < numBits)
    (hahead : bitSet bits s.i = false → ¬ (s.i % 32 = 0 ∧ bits (s.i / 32) = 0) →
      s.rangeStart ≠ 0 → ∃ n, val + s.i ≤ n ∧ n < val + 2 ^ 32 ∧ ¬ Covers s.iter.seqs n) :
    ScanInv old val numBits bits (scanStep val bits s) ∧ s.i < (scanStep val bits s).i := by
  obtain ⟨h0, hz, heq⟩ | ⟨hset, heq⟩ | ⟨hclear, hrun, heq⟩ | ⟨hclear, hz, hrun, heq⟩ :=
    scanStep_cases inv.toDecoding hb.words hi
  · rw [heq]
    exact ⟨inv.skipWord hi h0 hz _, by simp⟩
  · rw [heq]
    exact ⟨inv.setBit hb hi hset, by simp⟩
  · rw [heq]
    exact ⟨inv.clearBit hclear hrun, by simp⟩
  · rw [heq]
    exact inv.resetBit.closeRun hb hi hclear hrun rfl rfl (hahead hclear hz hrun)

/-- Some number behind the bitmap, but less than 2^32 behind its base, is missing. -/
def Open (old : List Range) (val : Int) (numBits : Nat) : Prop :=
  ∃ n, val + numBits ≤ n ∧ n < val + 2 ^ 32 ∧ ¬ Covers old n

theorem ScanInv.ahead (inv : ScanInv old val numBits bits s) (hopen : Open old val numBits)
    (hi : s.i < numBits) : ∃ n, val + s.i ≤ n ∧ n < val + 2 ^ 32 ∧ ¬ Covers s.iter.seqs n := by
  obtain ⟨n, hlow, hhigh, hout⟩ := hopen
  refine ⟨n, by omega, hhigh, ?_⟩
  intro hcov
  rcases inv.adds n hcov with h | ⟨k, hk, hdec⟩
  · exact hout h
  · have := hdec.bound
    omega

theorem scanLoop_inv (hb : ScanBounds old val numBits) (hopen : Open old val numBits) (fuel : Nat)
    (s done : BitmapScan) (inv : ScanInv old val numBits bits s)
    (h : scanLoop val numBits bits fuel s = .ok done) :
    ScanInv old val numBits bits done ∧ numBits ≤ done.i := by
  induction fuel generalizing s with
  | zero => cases h
  | succ fuel ih =>
    unfold scanLoop at h
    split at h
    · rename_i hi
      exact ih _ (scanStep_inv inv hb hi fun _ _ _ => inv.ahead hopen hi).1 h
    · cases h
      exact ⟨inv, by omega⟩

/-- A set that stays below the base plus 2^32 is open behind the bitmap. -/
theorem open_of_reach (hb : ScanBounds old val numBits)
    (hreach : ∀ n, Covers old n → n + 1 < val + 2 ^ 32) : Open old val numBits := by
  have hwords := hb.words
  refine ⟨val + 2 ^ 32 - 1, by omega, by omega, ?_⟩
  intro hcov
  have := hreach _ hcov
  omega

theorem bitmapEnd_eq (hbase : 1 ≤ val) (hn : numBits < 2 ^ 31) (hpos : 0 < numBits) :
    bitmapEnd val numBits = val + numBits - 1 := by
  have hint : (BitVec.ofNat 32 numBits).toInt = numBits := by
    rw [BitVec.toInt_eq_toNat_of_lt, BitVec.toNat_ofNat] <;> simp <;> omega
  unfold bitmapEnd
  rw [hint, ofValue_of_pos (by omega), previous_of_ne (by omega)]

end

theorem insertBits_decoded {seqs after : List Range} {value : Int} {numBits fuel : Nat}
    {bits : Nat → BitVec 32} {grew : Bool} (hbase : 1 ≤ value) (hn : numBits < 2 ^ 31)
    (h : insertBits fuel seqs value numBits bits = .ok (grew, after)) (n : Int)
    (hcov : Covers after n) :
    Covers seqs n ∨ ∃ k : Nat, n = value + k ∧ Decodes bits numBits k := by
  have hloop : ∀ (fuel : Nat) (s done : BitmapScan), Decoding seqs value numBits bits s →
      scanLoop value numBits bits fuel s = .ok done →
      Decoding seqs value numBits bits done ∧ numBits ≤ done.i := by
    intro fuel
    induction fuel with
    | zero =>
      intro s done _ hloop
      cases hloop
    | succ fuel ih =>
      intro s done inv hloop
      unfold scanLoop at hloop
      split at hloop
      · rename_i hi
        exact ih _ done (scanStep_decoding inv hbase (by omega) hi) hloop
      · cases hloop
        exact ⟨inv, by omega⟩
  unfold insertBits at h
  cases hscan : scanLoop value numBits bits fuel (scanStart seqs) with
  | error fault => simp [hscan] at h
  | ok s =>
    obtain ⟨inv, hdone⟩ := hloop fuel (scanStart seqs) s scanStart_decoding hscan
    simp only [hscan] at h
    split at h
    · rename_i hrun
      obtain h0 | ⟨start, hlt, hstart, hdec⟩ := inv.run
      · exact absurd h0 hrun
      rw [hstart, ofValue_of_pos (by omega), bitmapEnd_eq hbase hn (by omega)] at h
      obtain ⟨-, rfl⟩ := h
      exact inv.insertRun hbase (fun k h₁ h₂ => hdec k h₁ (by omega) h₂) n hcov
    · obtain ⟨-, rfl⟩ := h
      exact inv.adds n hcov

/-- The bitmap insertion keeps the set well formed and every member of it, adds every
number whose bit is set, and adds no number the scan does not decode. -/
theorem insertBits_spec {seqs after : List Range} {value : Int} {numBits fuel : Nat}
    {bits : Nat → BitVec 32} {grew : Bool} (wf : WellFormed seqs) (hb : ScanBounds seqs value numBits)
    (hn : numBits < 2 ^ 31) (hreach : ∀ n, Covers seqs n → n + 1 < value + 2 ^ 32)
    (h : insertBits fuel seqs value numBits bits = .ok (grew, after)) :
    WellFormed after ∧ (∀ n, Covers seqs n → Covers after n) ∧
      (∀ k : Nat, k < numBits → bitSet bits k = true → Covers after (value + k)) ∧
      ∀ n, Covers after n → Covers seqs n ∨ ∃ k : Nat, n = value + k ∧ Decodes bits numBits k := by
  unfold insertBits at h
  cases hloop : scanLoop value numBits bits fuel (scanStart seqs) with
  | error fault => simp [hloop] at h
  | ok s =>
    obtain ⟨inv, hdone⟩ := scanLoop_inv hb (open_of_reach hb hreach) fuel _ s (scanStart_inv wf) hloop
    simp only [hloop] at h
    split at h
    · rename_i hrun
      obtain h0 | ⟨start, hlt, hstart, hdec⟩ := inv.run
      · exact absurd h0 hrun
      have hbase := hb.base
      rw [hstart, ofValue_of_pos (by omega), bitmapEnd_eq hb.base hn (by omega)] at h
      generalize hresult : insertBitmapRange s.iter (value + start, value + numBits - 1) = result at h
      obtain ⟨-, rfl⟩ := h
      obtain ⟨hwf, hcov, -, hadds, -⟩ := inv.insertRun hb hlt.2 le_rfl
        (fun y hy => hstart ▸ (inv.iterator y hy).2 hrun)
        (fun k h₁ h₂ => hdec k h₁ (by omega) h₂) hresult
      refine ⟨hwf, fun n h => (hcov n).mpr (.inl (inv.keeps n h)), fun k hk hbit => ?_, hadds⟩
      refine (hcov _).mpr ?_
      rcases inv.seen k (by omega) hk hbit with h | h
      · exact .inl h
      · exact .inr ⟨by omega, by omega⟩
    · rename_i hrun
      obtain ⟨-, rfl⟩ := h
      refine ⟨inv.wellFormed, inv.keeps, fun k hk hbit => ?_, inv.adds⟩
      rcases inv.seen k (by omega) hk hbit with h | h
      · exact h
      · exact absurd h.1 hrun

end OpenDDS.Source.DisjointSequence
