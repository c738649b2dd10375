import OpenDDS.Source.BitmapScan

/-!
Which positions the bitmap scan visits, inserts and reads. A run of ones ends at the first
zero bit behind it that does not belong to a word of zeros; the scan then continues behind
the stored range that the run was merged with, so a set bit inside that range is never
looked at. `Skipped` says so in terms of the bitmap and the stored set alone, and `Carried`
are the positions in words of zeros that the scan takes over into a run it did look at.
-/
namespace OpenDDS.Source.DisjointSequence
open Library.RangeList SequenceNumber

/-- Indices of `bits` read when a run is closed. -/
def closeReads (val : Int) (s : BitmapScan) : List Nat :=
  let toInsert := val + s.i - 1
  let result := insertBitmapRange s.iter (ofValue s.rangeStart, ofValue toInsert)
  match result.2.rest with
  | [] => []
  | it :: _ =>
    if it.2 ≠ toInsert then
      let nextI := toULong (it.2 - val)
      if nextI / 32 ≠ s.i / 32 then [nextI / 32] else []
    else []

/-- Indices of `bits` read by one iteration of the loop. -/
def stepReads (val : Int) (bits : Nat → BitVec 32) (s : BitmapScan) : List Nat :=
  let bit := if s.bit = 32 then 0 else s.bit
  let x := if bit = 0 then bits (s.i / 32) else s.x
  let s := { s with bit := bit, x := x }
  (if bit = 0 then [s.i / 32] else []) ++
    (if bit = 0 ∧ x = 0 then []
    else if x.getMsbD bit then []
    else if s.rangeStart ≠ 0 then closeReads val s
    else [])

/-- Indices of `bits` read by the loop of `insert(value, num_bits, bits)`. -/
def scanReads (val : Int) (numBits : Nat) (bits : Nat → BitVec 32) :
    Nat → BitmapScan → List Nat
  | 0, _ => []
  | fuel + 1, s =>
    if s.i < numBits then stepReads val bits s ++ scanReads val numBits bits fuel (scanStep val bits s)
    else []

/-- A run of ones whose last set bit is `p` ends at `c`; between them lie words of zeros. -/
structure RunEnds (bits : Nat → BitVec 32) (p c : Nat) : Prop where
  set : bitSet bits p = true
  before : p < c
  clear : bitSet bits c = false
  word : bits (c / 32) ≠ 0
  between : ∀ q, p < q → q < c → bits (q / 32) = 0

/-- An earlier run, itself not skipped, ends at `c` and all numbers from `c` to `p` are stored. -/
def Skipped (old : List Range) (val : Int) (bits : Nat → BitVec 32) (p : Nat) : Prop :=
  ∃ p' c, ∃ _ : p' < p, RunEnds bits p' c ∧ c ≤ p ∧
    (∀ q, c ≤ q → q ≤ p → Covers old (val + q)) ∧ ¬ Skipped old val bits p'
termination_by p

/-- A position in words of zeros that follow a set bit the scan looks at. -/
def Carried (old : List Range) (val : Int) (bits : Nat → BitVec 32) (k : Nat) : Prop :=
  ∃ p, p < k ∧ bitSet bits p = true ∧ (∀ q, p < q → q ≤ k → bits (q / 32) = 0) ∧
    ¬ Skipped old val bits p

/-- Where a run ends, the stored numbers do not go on to the base plus 2^32. -/
def Bounded (old : List Range) (val : Int) (numBits : Nat) (bits : Nat → BitVec 32) : Prop :=
  ∀ p c, RunEnds bits p c → c < numBits → ¬ Skipped old val bits p →
    ∃ n, val + c ≤ n ∧ n < val + 2 ^ 32 ∧ ¬ Covers old n

section

variable {old : List Range} {val : Int} {bits : Nat → BitVec 32} {k : Nat}

theorem bitSet_eq_false_of_zero (h : bits (k / 32) = 0) : bitSet bits k = false := by
  simp [bitSet, h]

theorem word_ne_zero_of_bitSet (h : bitSet bits k = true) : bits (k / 32) ≠ 0 := by
  intro hz
  rw [bitSet_eq_false_of_zero hz] at h
  cases h

theorem Carried.zero (h : Carried old val bits k) : bits (k / 32) = 0 := by
  obtain ⟨p, hlt, -, hzero, -⟩ := h
  exact hzero k hlt le_rfl

end

section

variable {old : List Range} {val : Int} {numBits : Nat} {bits : Nat → BitVec 32} {s : BitmapScan}

/-- What the scan has looked at, and what it has inserted exactly. -/
structure Runs (old : List Range) (val : Int) (numBits : Nat) (bits : Nat → BitVec 32)
    (s : BitmapScan) : Prop where
  behind : ∀ n, Covers s.iter.seqs n → Covers old n ∨ n < val + s.i
  ended : ∀ p c, RunEnds bits p c → ¬ Skipped old val bits p → c < s.i →
    ∃ q, c ≤ q ∧ q ≤ s.i ∧ ¬ Covers old (val + q)
  left : s.rangeStart = 0 → ∀ p < s.i, bitSet bits p = true →
    (∀ q, p < q → q < s.i → bits (q / 32) = 0) → Skipped old val bits p
  live : s.rangeStart ≠ 0 → ∃ p < s.i, bitSet bits p = true ∧
    (∀ q, p < q → q < s.i → bits (q / 32) = 0) ∧ ¬ Skipped old val bits p ∧
    (p + 1 = s.i ∨ s.i % 32 = 0)
  adds : ∀ n, Covers s.iter.seqs n →
    Covers old n ∨ ∃ k : Nat, k < numBits ∧ n = val + k ∧
      (bitSet bits k = true ∨ Carried old val bits k)
  run : s.rangeStart ≠ 0 → ∀ k : Nat, k < s.i → k < numBits → s.rangeStart ≤ val + k →
    bitSet bits k = true ∨ Carried old val bits k
  carried : ∀ k : Nat, k < s.i → k < numBits → Carried old val bits k →
    Covers s.iter.seqs (val + k) ∨ (s.rangeStart ≠ 0 ∧ s.rangeStart ≤ val + k)
  grew : s.inserted = true ↔ ∃ n, Covers s.iter.seqs n ∧ ¬ Covers old n

theorem scanStart_runs : Runs old val numBits bits (scanStart old) where
  behind := fun n h => .inl (by simpa [scanStart] using h)
  ended := by simp [scanStart]
  left := by simp [scanStart]
  live := by simp [scanStart]
  adds := fun n h => .inl (by simpa [scanStart] using h)
  run := by simp [scanStart]
  carried := by simp [scanStart]
  grew := by simp [scanStart]

section

variable (runs : Runs old val numBits bits s)
include runs

/-- A word of zeros: an open run goes on over it, a closed one stays closed. -/
private theorem Runs.skipWord (inv : ScanInv old val numBits bits s) (h0 : s.i % 32 = 0)
    (hz : bits (s.i / 32) = 0) (x : BitVec 32) :
    Runs old val numBits bits { s with i := s.i + 32, x := x, bit := 32 } := by
  have hword : ∀ q, s.i ≤ q → q < s.i + 32 → bits (q / 32) = 0 := by
    intro q h₁ h₂
    rw [show q / 32 = s.i / 32 by omega]
    exact hz
  have hset : ∀ q, q < s.i + 32 → bitSet bits q = true → q < s.i := by
    intro q hq hbit
    by_contra hge
    exact word_ne_zero_of_bitSet hbit (hword q (by omega) hq)
  constructor
  · intro n hn
    refine (runs.behind n hn).imp_right fun h => ?_
    simp only
    omega
  · intro p c hends hskip hc
    have hlt : c < s.i := by
      by_contra hge
      exact hends.word (hword c (by omega) hc)
    obtain ⟨q, h₁, h₂, hout⟩ := runs.ended p c hends hskip hlt
    exact ⟨q, h₁, by simp only; omega, hout⟩
  · intro hrun p hp hbit hzero
    simp only at hrun hp hzero
    exact runs.left hrun p (hset p hp hbit) hbit fun q h₁ h₂ => hzero q h₁ (by omega)
  · intro hrun
    obtain ⟨p, hp, hbit, hzero, hskip, -⟩ := runs.live hrun
    refine ⟨p, by simp only; omega, hbit, ?_, hskip, .inr (by simp only; omega)⟩
    intro q h₁ h₂
    by_cases hq : q < s.i
    · exact hzero q h₁ hq
    · exact hword q (by omega) h₂
  · exact runs.adds
  · intro hrun k hk hn hle
    simp only at hrun hk hle
    by_cases hlt : k < s.i
    · exact runs.run hrun k hlt hn hle
    · right
      obtain ⟨p, hp, hbit, hzero, hskip, -⟩ := runs.live hrun
      refine ⟨p, by omega, hbit, ?_, hskip⟩
      intro q h₁ h₂
      by_cases hq : q < s.i
      · exact hzero q h₁ hq
      · exact hword q (by omega) (by omega)
  · intro k hk hn hcar
    simp only at hk
    by_cases hlt : k < s.i
    · exact runs.carried k hlt hn hcar
    · obtain ⟨p, hp, hbit, hzero, hskip⟩ := hcar
      have hpi := hset p (by omega) hbit
      by_cases hrun : s.rangeStart = 0
      · exact absurd (runs.left hrun p hpi hbit fun q h₁ h₂ => hzero q h₁ (by omega)) hskip
      · obtain h | ⟨start, hlt', hstart, -⟩ := inv.run
        · exact absurd h hrun
        · exact .inr ⟨hrun, by simp only; omega⟩
  · exact runs.grew

/-- A set bit that the scan looks at is not skipped. -/
private theorem Runs.not_skipped (hset : bitSet bits s.i = true) : ¬ Skipped old val bits s.i := by
  intro hskip
  rw [Skipped] at hskip
  obtain ⟨p, c, -, hends, hc, hstored, hlive⟩ := hskip
  have hlt : c < s.i := by
    refine lt_of_le_of_ne hc ?_
    rintro rfl
    rw [hends.clear] at hset
    cases hset
  obtain ⟨q, h₁, h₂, hout⟩ := runs.ended p c hends hlive hlt
  exact hout (hstored q h₁ h₂)

private theorem Runs.setBit (hb : ScanBounds old val numBits) (hset : bitSet bits s.i = true) :
    Runs old val numBits bits
      { s with i := s.i + 1, x := bits (s.i / 32), bit := s.i % 32 + 1,
               rangeStart := if s.rangeStart = 0 then val + s.i else s.rangeStart } := by
  have hbase := hb.base
  have hopen : (if s.rangeStart = 0 then val + s.i else s.rangeStart) ≠ 0 := by
    split
    · omega
    · assumption
  have hword := word_ne_zero_of_bitSet hset
  constructor
  · intro n hn
    refine (runs.behind n hn).imp_right fun h => ?_
    simp only
    omega
  · intro p c hends hskip hc
    simp only at hc
    have hne : c ≠ s.i := by
      rintro rfl
      have := hends.clear
      rw [hset] at this
      cases this
    obtain ⟨q, h₁, h₂, hout⟩ := runs.ended p c hends hskip (by omega)
    exact ⟨q, h₁, by simp only; omega, hout⟩
  · intro hrun
    exact absurd hrun hopen
  · intro _
    exact ⟨s.i, by simp, hset, fun q h₁ h₂ => by simp only at h₂; omega, runs.not_skipped hset,
      Or.inl rfl⟩
  · exact runs.adds
  · intro _ k hk hn hle
    simp only at hk hle
    by_cases hlt : k < s.i
    · by_cases hrun : s.rangeStart = 0
      · omega
      · simp only [hrun, if_false] at hle
        exact runs.run hrun k hlt hn hle
    · rw [show k = s.i by omega]
      exact .inl hset
  · intro k hk hn hcar
    simp only at hk ⊢
    have hne : k ≠ s.i := by
      rintro rfl
      exact hword hcar.zero
    refine (runs.carried k (by omega) hn hcar).imp_right ?_
    rintro ⟨hrun, hle⟩
    simp only [hrun, if_false]
    exact ⟨hrun, hle⟩
  · exact runs.grew

private theorem Runs.clearBit (hclear : bitSet bits s.i = false) (hrun : s.rangeStart = 0) :
    Runs old val numBits bits { s with i := s.i + 1, x := bits (s.i / 32), bit := s.i % 32 + 1 } := by
  have hset : ∀ p, p < s.i + 1 → bitSet bits p = true → p < s.i := by
    intro p hp hbit
    refine lt_of_le_of_ne (by omega) ?_
    rintro rfl
    rw [hclear] at hbit
    cases hbit
  constructor
  · intro n hn
    refine (runs.behind n hn).imp_right fun h => ?_
    simp only
    omega
  · intro p c hends hskip hc
    simp only at hc
    by_cases hlt : c < s.i
    · obtain ⟨q, h₁, h₂, hout⟩ := runs.ended p c hends hskip hlt
      exact ⟨q, h₁, by simp only; omega, hout⟩
    · -- The run would still be open here.
      have hc' : c = s.i := by omega
      exact absurd (runs.left hrun p (hc' ▸ hends.before) hends.set (hc' ▸ hends.between)) hskip
  · intro _ p hp hbit hzero
    simp only at hp hzero
    exact runs.left hrun p (hset p hp hbit) hbit fun q h₁ h₂ => hzero q h₁ (by omega)
  · intro h
    exact absurd hrun h
  · exact runs.adds
  · intro h
    exact absurd hrun h
  · intro k hk hn hcar
    simp only at hk
    by_cases hlt : k < s.i
    · exact runs.carried k hlt hn hcar
    · obtain ⟨p, hp, hbit, hzero, hskip⟩ := hcar
      exact absurd (runs.left hrun p (by omega) hbit fun q h₁ h₂ => hzero q h₁ (by omega)) hskip
  · exact runs.grew

/-- The run that is open in front of a zero bit ends there. -/
theorem Runs.runEnds (hclear : bitSet bits s.i = false)
    (hz : ¬ (s.i % 32 = 0 ∧ bits (s.i / 32) = 0)) (hrun : s.rangeStart ≠ 0) :
    ∃ p, RunEnds bits p s.i ∧ ¬ Skipped old val bits p := by
  obtain ⟨p, hp, hbit, hzero, hskip, hnext⟩ := runs.live hrun
  refine ⟨p, ⟨hbit, hp, hclear, ?_, hzero⟩, hskip⟩
  intro hword
  by_cases h0 : s.i % 32 = 0
  · exact hz ⟨h0, hword⟩
  · have hsame : s.i / 32 = p / 32 := by omega
    rw [hsame] at hword
    exact word_ne_zero_of_bitSet hbit hword

theorem Runs.ahead (hbound : Bounded old val numBits bits) (hi : s.i < numBits)
    (hclear : bitSet bits s.i = false) (hz : ¬ (s.i % 32 = 0 ∧ bits (s.i / 32) = 0))
    (hrun : s.rangeStart ≠ 0) : ∃ n, val + s.i ≤ n ∧ n < val + 2 ^ 32 ∧ ¬ Covers s.iter.seqs n := by
  obtain ⟨p, hends, hskip⟩ := runs.runEnds hclear hz hrun
  obtain ⟨n, h₁, h₂, hout⟩ := hbound p s.i hends hi hskip
  refine ⟨n, h₁, h₂, ?_⟩
  intro hcov
  rcases runs.behind n hcov with h | h
  · exact hout h
  · omega

end

theorem Runs.grew_insert {before after : List Range} {inserted added : Bool} {lo hi : Int}
    (hins : inserted = true ↔ ∃ n, Covers before n ∧ ¬ Covers old n)
    (hkeep : ∀ n, Covers old n → Covers before n)
    (hcov : ∀ n, Covers after n ↔ Covers before n ∨ (lo ≤ n ∧ n < hi))
    (hadd : added = true ↔ ∃ n, (lo ≤ n ∧ n < hi) ∧ ¬ Covers before n) :
    (inserted || added) = true ↔ ∃ n, Covers after n ∧ ¬ Covers old n := by
  rw [Bool.or_eq_true, hins, hadd]
  constructor
  · rintro (⟨n, hn, hout⟩ | ⟨n, hn, hout⟩)
    · exact ⟨n, (hcov n).mpr (.inl hn), hout⟩
    · exact ⟨n, (hcov n).mpr (.inr hn), fun h => hout (hkeep n h)⟩
  · rintro ⟨n, hn, hout⟩
    by_cases hbefore : Covers before n
    · exact .inl ⟨n, hbefore, hout⟩
    · exact .inr ⟨n, ((hcov n).mp hn).resolve_left hbefore, hbefore⟩

private theorem Runs.closeRun (runs : Runs old val numBits bits s)
    (inv : ScanInv old val numBits bits s) (hb : ScanBounds old val numBits)
    (hi : s.i < numBits) (hclear : bitSet bits s.i = false)
    (hz : ¬ (s.i % 32 = 0 ∧ bits (s.i / 32) = 0)) (hrun : s.rangeStart ≠ 0)
    (hx : s.x = bits (s.i / 32)) (hbit : s.bit = s.i % 32)
    (hahead : ∃ n, val + s.i ≤ n ∧ n < val + 2 ^ 32 ∧ ¬ Covers s.iter.seqs n) :
    Runs old val numBits bits (closeRun val bits s).advance := by
  obtain ⟨p₀, hends₀, hskip₀⟩ := runs.runEnds hclear hz hrun
  obtain ⟨result, start, i, bit, word, x, heq, -, hstart, hlt, hwf, hcov, hgrew, -,
    ⟨-, hxmem, hxlow, hxhigh, -⟩, hi', -, -⟩ := inv.closing hb hi hrun hx hbit hahead
  have hbehind : ∀ n, Covers result.2.seqs n → val + s.i ≤ n → Covers old n := by
    intro n hn hge
    rcases (hcov n).mp hn with h | h
    · rcases runs.behind n h with h | h
      · exact h
      · omega
    · omega
  have hkeep : ∀ n, Covers old n → Covers result.2.seqs n :=
    fun n h => (hcov n).mpr (.inl (inv.keeps n h))
  -- The scan stops at the first missing number behind the run.
  have hmissing : ∃ q, s.i ≤ q ∧ q ≤ i ∧ ¬ Covers old (val + q) := by
    obtain ⟨q, hq⟩ := Int.eq_ofNat_of_zero_le (show 0 ≤ x.2 + 1 - val by omega)
    refine ⟨q, by omega, by omega, fun h => ?_⟩
    have hafter := (hwf.canonical.maximalRun hxmem).after
    rw [show x.2 + 1 = val + q by omega] at hafter
    exact hafter (hkeep _ h)
  have hstored : ∀ q : Nat, s.i ≤ q → q < i → q ≠ s.i ∨ val + s.i ≤ x.2 → Covers old (val + q) := by
    intro q h₁ h₂ hne
    exact hbehind _ ⟨x, hxmem, by omega, by omega⟩ (by omega)
  have hword : bits (s.i / 32) ≠ 0 := hends₀.word
  rw [heq]
  constructor
  · intro n hn
    by_cases hge : val + s.i ≤ n
    · exact .inl (hbehind n hn hge)
    · right
      simp only
      omega
  · intro p c hends hskip hc
    obtain ⟨q, h₁, h₂, hout⟩ := hmissing
    simp only at hc ⊢
    by_cases hcs : c ≤ q
    · exact ⟨q, hcs, h₂, hout⟩
    · refine ⟨i, by omega, le_rfl, fun h => ?_⟩
      -- Only behind `x` can the missing number lie past `c`.
      exact hout (hstored q h₁ (by omega) (by omega))
  · intro _ p hp hset hzero
    simp only at hp hzero
    have hgt : s.i < p := by
      by_contra hle
      rcases lt_or_eq_of_le (not_lt.mp hle) with hlt' | rfl
      · exact hword (hzero s.i hlt' (by omega))
      · rw [hclear] at hset
        cases hset
    rw [Skipped]
    refine ⟨p₀, s.i, by have := hends₀.before; omega, hends₀, by omega, ?_, hskip₀⟩
    intro q h₁ h₂
    exact hstored q h₁ (by omega) (by omega)
  · intro h
    exact absurd rfl h
  · intro n hn
    rcases (hcov n).mp hn with h | ⟨h₁, h₂⟩
    · exact runs.adds n h
    · obtain ⟨k, hk⟩ := Int.eq_ofNat_of_zero_le (show 0 ≤ n - val by omega)
      refine .inr ⟨k, by omega, by omega, runs.run hrun k (by omega) (by omega) ?_⟩
      omega
  · intro h
    exact absurd rfl h
  · intro k hk hn hcar
    left
    by_cases hlt' : k < s.i
    · refine (hcov _).mpr ?_
      rcases runs.carried k hlt' hn hcar with h | h
      · exact .inl h
      · exact .inr ⟨by omega, by omega⟩
    · have hne : k ≠ s.i := by
        rintro rfl
        exact hword hcar.zero
      exact hkeep _ (hstored k (by omega) hk (.inl hne))
  · exact Runs.grew_insert runs.grew inv.keeps hcov hgrew

theorem Runs.resetBit (runs : Runs old val numBits bits s) :
    Runs old val numBits bits { s with bit := s.i % 32, x := bits (s.i / 32) } :=
  { runs with }

theorem scanStep_runs (inv : ScanInv old val numBits bits s) (runs : Runs old val numBits bits s)
    (hb : ScanBounds old val numBits) (hbound : Bounded old val numBits bits)
    (hi : s.i < numBits) :
    ScanInv old val numBits bits (scanStep val bits s) ∧
      Runs old val numBits bits (scanStep val bits s) ∧ s.i < (scanStep val bits s).i := by
  obtain ⟨inv', hlt⟩ := scanStep_inv inv hb hi fun h₁ h₂ h₃ => runs.ahead hbound hi h₁ h₂ h₃
  refine ⟨inv', ?_, hlt⟩
  obtain ⟨h0, hz, heq⟩ | ⟨hset, heq⟩ | ⟨hclear, hrun, heq⟩ | ⟨hclear, hz, hrun, heq⟩ :=
    scanStep_cases inv.toDecoding hb.words hi
  · rw [heq]
    exact runs.skipWord inv h0 hz _
  · rw [heq]
    exact runs.setBit hb hset
  · rw [heq]
    exact runs.clearBit hclear hrun
  · rw [heq]
    exact runs.resetBit.closeRun inv.resetBit hb hi hclear hz hrun rfl rfl
      (runs.ahead hbound hi hclear hz hrun)

theorem scanLoop_runs (hb : ScanBounds old val numBits) (hbound : Bounded old val numBits bits)
    (fuel : Nat) (s : BitmapScan) (inv : ScanInv old val numBits bits s)
    (runs : Runs old val numBits bits s) (hfuel : numBits < s.i + fuel) (hpos : 0 < fuel) :
    ∃ done, scanLoop val numBits bits fuel s = .ok done ∧ ScanInv old val numBits bits done ∧
      Runs old val numBits bits done ∧ numBits ≤ done.i := by
  induction fuel generalizing s with
  | zero => exact absurd hpos (by simp)
  | succ fuel ih =>
    unfold scanLoop
    split
    · rename_i hi
      obtain ⟨inv', runs', hlt⟩ := scanStep_runs inv runs hb hbound hi
      exact ih _ inv' runs' (by omega) (by omega)
    · exact ⟨s, rfl, inv, runs, by omega⟩

end

/-- What the insertion adds: the set bits and the positions carried over words of zeros. -/
def Adds (old : List Range) (val : Int) (numBits : Nat) (bits : Nat → BitVec 32) (n : Int) : Prop :=
  ∃ k : Nat, k < numBits ∧ n = val + k ∧ (bitSet bits k = true ∨ Carried old val bits k)

theorem insertBits_exact {seqs : List Range} {value : Int} {numBits : Nat} {bits : Nat → BitVec 32}
    (wf : WellFormed seqs) (hb : ScanBounds seqs value numBits)
    (hbound : Bounded seqs value numBits bits) (hn : numBits < 2 ^ 31) :
    ∃ grew after, insertBits (numBits + 1) seqs value numBits bits = .ok (grew, after) ∧
      (∀ n, Covers after n ↔ Covers seqs n ∨ Adds seqs value numBits bits n) ∧
      (grew = true ↔ ∃ n, Covers after n ∧ ¬ Covers seqs n) := by
  have hbase := hb.base
  obtain ⟨s, hloop, inv, runs, hdone⟩ := scanLoop_runs hb hbound (numBits + 1) (scanStart seqs)
    (scanStart_inv wf) scanStart_runs (by omega) (by omega)
  unfold insertBits
  simp only [hloop]
  split
  · rename_i hrun
    obtain h0 | ⟨start, hlt, hstart, hdec⟩ := inv.run
    · exact absurd h0 hrun
    rw [hstart, ofValue_of_pos (by omega), bitmapEnd_eq hbase hn (by omega)]
    generalize hresult : insertBitmapRange s.iter (value + start, value + numBits - 1) = result
    obtain ⟨hwf, hcov, hgrew, -, -⟩ := inv.insertRun hb hlt.2 le_rfl
      (fun y hy => hstart ▸ (inv.iterator y hy).2 hrun)
      (fun k h₁ h₂ => hdec k h₁ (by omega) h₂) hresult
    refine ⟨_, _, rfl, fun n => ?_, Runs.grew_insert runs.grew inv.keeps hcov hgrew⟩
    rw [hcov]
    constructor
    · rintro (h | ⟨h₁, h₂⟩)
      · exact runs.adds n h
      · obtain ⟨k, hk⟩ := Int.eq_ofNat_of_zero_le (show 0 ≤ n - value by omega)
        exact .inr ⟨k, by omega, by omega, runs.run hrun k (by omega) (by omega) (by omega)⟩
    · rintro (h | ⟨k, hk, rfl, hbit | hcar⟩)
      · exact .inl (inv.keeps n h)
      · refine (inv.seen k (by omega) hk hbit).imp_right ?_
        rintro ⟨-, hle⟩
        omega
      · refine (runs.carried k (by omega) hk hcar).imp_right ?_
        rintro ⟨-, hle⟩
        omega
  · rename_i hrun
    refine ⟨_, _, rfl, fun n => ⟨runs.adds n, ?_⟩, runs.grew⟩
    rintro (h | ⟨k, hk, rfl, hbit | hcar⟩)
    · exact inv.keeps n h
    · exact (inv.seen k (by omega) hk hbit).resolve_right fun h => hrun h.1
    · exact (runs.carried k (by omega) hk hcar).resolve_right fun h => hrun h.1

section

/-- Zero alone in front of the other ranges. The scan never gets there: it looks for
numbers from one on. -/
def Iter.behindZero (it : Iter) : Iter := ⟨(0, 0) :: it.before, it.rest⟩

variable {it : Iter} {range : Range} {seqs : List Range}

theorem lowerBound_behindZero {key : Int} (h : 1 ≤ key) :
    lowerBound ((0, 0) :: seqs) key = (lowerBound seqs key).behindZero := by
  simp [lowerBound, Iter.behindZero, below, reaching, show (0 : Int) < key by omega]

theorem seekPrevious_behindZero (previous : Int) :
    seekPrevious it.behindZero previous = (seekPrevious it previous).behindZero := by
  obtain ⟨before, rest⟩ := it
  cases rest with
  | nil =>
    have hfound : lowerBound ((0, 0) :: Iter.seqs ⟨before, []⟩) (ofValue previous) =
        (lowerBound (Iter.seqs ⟨before, []⟩) (ofValue previous)).behindZero :=
      lowerBound_behindZero (ofValue_pos previous)
    exact hfound
  | cons x rest => rfl

theorem setInsert_behindZero (h : 1 ≤ range.2) :
    setInsert ((0, 0) :: seqs) range = (setInsert seqs range).behindZero := by
  unfold setInsert
  rw [insertByEnd, if_pos (by simp only; omega)]
  exact lowerBound_behindZero h

theorem mergeRight_pos {next : Int} {rest : List Range} (h : 1 ≤ range.2)
    (hnext : 1 ≤ next) : 1 ≤ (mergeRight range next (reaching next rest)).1 := by
  unfold mergeRight
  split
  · exact h
  · rename_i r rest' heq
    split
    · have := reaching_head heq
      omega
    · exact h

theorem insertBitmapRange_behindZero (h : 1 ≤ range.2) :
    insertBitmapRange it.behindZero range =
      ((insertBitmapRange it range).1, (insertBitmapRange it range).2.behindZero) := by
  unfold insertBitmapRange
  simp only [seekPrevious_behindZero]
  obtain ⟨before, rest⟩ := seekPrevious it (range.1 - 1)
  have hnew : setInsert (Iter.behindZero ⟨before, rest⟩).seqs range =
      (setInsert (Iter.seqs ⟨before, rest⟩) range).behindZero := setInsert_behindZero h
  cases rest with
  | nil => exact Prod.ext rfl hnew
  | cons found rest =>
    simp only [Iter.behindZero] at hnew ⊢
    split
    · rw [hnew]
    · split
      · rfl
      · have hmerged : 1 ≤ (mergeRight range (ofValue (range.2 + 1))
            (reaching (ofValue (range.2 + 1)) (found :: rest))).1 :=
          mergeRight_pos h (ofValue_pos _)
        rw [List.cons_append, setInsert_behindZero (by exact hmerged)]
        rfl

def BitmapScan.behindZero (s : BitmapScan) : BitmapScan := { s with iter := s.iter.behindZero }

variable {val : Int} {numBits : Nat} {bits : Nat → BitVec 32}

theorem closeRun_behindZero (s : BitmapScan) :
    closeRun val bits s.behindZero = (closeRun val bits s).behindZero := by
  unfold closeRun
  simp only [BitmapScan.behindZero]
  rw [insertBitmapRange_behindZero (ofValue_pos _)]
  generalize insertBitmapRange s.iter (ofValue s.rangeStart, ofValue (val + s.i - 1)) = result
  obtain ⟨added, before, rest⟩ := result
  cases rest with
  | nil => rfl
  | cons x rest =>
    by_cases hskip : x.2 ≠ val + s.i - 1
    · simp only [Iter.behindZero, if_pos hskip]
      exact if_pos hskip
    · simp only [Iter.behindZero, if_neg hskip]
      exact if_neg hskip

theorem scanStep_behindZero (s : BitmapScan) :
    scanStep val bits s.behindZero = (scanStep val bits s).behindZero := by
  unfold scanStep
  simp only [show s.behindZero.bit = s.bit from rfl, show s.behindZero.i = s.i from rfl,
    show s.behindZero.x = s.x from rfl, show s.behindZero.rangeStart = s.rangeStart from rfl]
  generalize (if s.bit = 32 then 0 else s.bit) = bit
  generalize (if bit = 0 then bits (s.i / 32) else s.x) = x
  by_cases hzero : bit = 0 ∧ x = 0
  · simp only [if_pos hzero]
    rfl
  · by_cases hset : x.getMsbD bit = true
    · simp only [if_neg hzero, if_pos hset]
      rfl
    · by_cases hrun : s.rangeStart ≠ 0
      · simp only [if_neg hzero, if_neg hset, if_pos hrun]
        exact congrArg BitmapScan.advance (closeRun_behindZero { s with bit := bit, x := x })
      · simp only [if_neg hzero, if_neg hset, if_neg hrun]
        rfl

theorem scanLoop_behindZero (fuel : Nat) (s : BitmapScan) :
    scanLoop val numBits bits fuel s.behindZero =
      (scanLoop val numBits bits fuel s).map BitmapScan.behindZero := by
  induction fuel generalizing s with
  | zero => rfl
  | succ fuel ih =>
    unfold scanLoop
    by_cases hi : s.i < numBits
    · simp only [show s.behindZero.i = s.i from rfl, if_pos hi, scanStep_behindZero, ih]
    · simp only [show s.behindZero.i = s.i from rfl, if_neg hi]
      rfl

theorem stepReads_behindZero (s : BitmapScan) :
    stepReads val bits s.behindZero = stepReads val bits s := by
  have hclose : ∀ s : BitmapScan, closeReads val s.behindZero = closeReads val s := by
    intro s
    unfold closeReads
    simp only [BitmapScan.behindZero]
    rw [insertBitmapRange_behindZero (ofValue_pos _)]
    rfl
  unfold stepReads
  simp only [show s.behindZero.bit = s.bit from rfl, show s.behindZero.i = s.i from rfl,
    show s.behindZero.x = s.x from rfl, show s.behindZero.rangeStart = s.rangeStart from rfl]
  generalize (if s.bit = 32 then 0 else s.bit) = bit
  generalize (if bit = 0 then bits (s.i / 32) else s.x) = x
  rw [← hclose { s with bit := bit, x := x }]
  rfl

theorem scanReads_behindZero (fuel : Nat) (s : BitmapScan) :
    scanReads val numBits bits fuel s.behindZero = scanReads val numBits bits fuel s := by
  induction fuel generalizing s with
  | zero => rfl
  | succ fuel ih =>
    unfold scanReads
    simp only [show s.behindZero.i = s.i from rfl, stepReads_behindZero, scanStep_behindZero, ih]

theorem insertBits_behindZero (fuel : Nat) (seqs : List Range) (value : Int) :
    insertBits fuel ((0, 0) :: seqs) value numBits bits =
      (insertBits fuel seqs value numBits bits).map (Prod.map id ((0, 0) :: ·)) := by
  have hend : 1 ≤ bitmapEnd value numBits := by
    have hpos := ofValue_pos (value + (BitVec.ofNat 32 numBits).toInt)
    unfold bitmapEnd previous
    split
    · decide
    · omega
  have hstart : scanStart ((0, 0) :: seqs) = (scanStart seqs).behindZero := rfl
  unfold insertBits
  rw [hstart, scanLoop_behindZero]
  cases scanLoop value numBits bits fuel (scanStart seqs) with
  | error fault => rfl
  | ok s =>
    by_cases hrun : s.rangeStart ≠ 0
    · have hinsert : insertBitmapRange s.iter.behindZero
          (ofValue s.rangeStart, bitmapEnd value numBits) = _ := insertBitmapRange_behindZero hend
      simp only [Except.map, show s.behindZero.rangeStart = s.rangeStart from rfl, if_pos hrun,
        show s.behindZero.iter = s.iter.behindZero from rfl, hinsert]
      rfl
    · simp only [Except.map, show s.behindZero.rangeStart = s.rangeStart from rfl, if_neg hrun]
      rfl

end

end OpenDDS.Source.DisjointSequence
