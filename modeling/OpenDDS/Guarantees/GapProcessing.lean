import OpenDDS.Guarantees.BitmapInsertion
import OpenDDS.Source.RtpsReader

/-!
# What a received GAP adds

`process_gap_i` inserts the range from `gapStart` to the number in front of `bitmapBase`
and then the bitmap. The range insertion throws when `gapStart` is not below the base, and
the number in front of 1 is the largest one, so that a GAP with base 1 declares everything
from `gapStart` on as irrelevant.
-/
namespace OpenDDS.Guarantees.GapProcessing
open Library.RangeList Source Source.SequenceNumber Source.DisjointSequence
open Source.RtpsReader Source.RtpsMessages BitmapInsertion

/-- The number that the two halves of a received sequence number stand for. -/
def number (sn : SequenceNumber_t) : Int := lowBase * sn.high.toInt + sn.low.toNat

variable {α : Type} {durable : Bool} {info : WriterInfo α} {gap : GapSubmessage}

/-- No exception, and `recvd_` grows at most by what the GAP announces. -/
def AddsAnnounced (durable : Bool) (info : WriterInfo α) (gap : GapSubmessage) : Prop :=
  ∃ fuel delivered after, processGapI fuel durable info gap = .ok (delivered, after) ∧
    (∀ n, Covers info.recvd n → Covers after.recvd n) ∧
    ∀ n, Covers after.recvd n → Covers info.recvd n ∨
      (number gap.gapStart ≤ n ∧ n < number gap.gapList.bitmapBase) ∨
      ∃ k : Nat, k < gap.gapList.numBits ∧ n = number gap.gapList.bitmapBase + k ∧
        bitSet gap.gapList.bitmap k = true

/-- The GAP ends behind its start, its base is not 1, and no missing number lies in words of
zeros that follow a run of its bitmap. -/
structure Expected (recvd : List Range) (gap : GapSubmessage) : Prop where
  base : 1 < number gap.gapList.bitmapBase
  ascending : number gap.gapStart < number gap.gapList.bitmapBase
  carried : ∀ k : Nat, k < gap.gapList.numBits →
    Carried recvd (number gap.gapList.bitmapBase) gap.gapList.bitmap k →
    Covers recvd (number gap.gapList.bitmapBase + k)

/-- The bitmap stays below the largest number, and no stored range behind one of its runs
goes on for 2^32 numbers. -/
structure Fits (recvd : List Range) (gap : GapSubmessage) : Prop where
  last : number gap.gapList.bitmapBase + gap.gapList.numBits ≤ maxValue
  bounded : Bounded recvd (number gap.gapList.bitmapBase) gap.gapList.numBits gap.gapList.bitmap

theorem value_eq (sn : SequenceNumber_t) : sn.value = max 1 (number sn) := by
  unfold SequenceNumber_t.value ofValue minValue number
  split <;> omega

variable {range : Range} {fuel : Nat}

section

/-- Some stored range ends at the largest number; none starts above it. -/
def EndsLargest (seqs : List Range) : Prop :=
  (∀ r ∈ seqs, r.1 ≤ maxValue) ∧ ∃ r ∈ seqs, r.2 = maxValue

theorem EndsLargest.covers {seqs : List Range} (h : EndsLargest seqs) : Covers seqs maxValue := by
  obtain ⟨hstart, r, hr, hend⟩ := h
  exact ⟨r, hr, hstart r hr, hend.ge⟩

theorem EndsLargest.insertByEnd {seqs : List Range} (hstart : ∀ r ∈ seqs, r.1 ≤ maxValue)
    (hrange : range.1 ≤ maxValue) (h : range.2 = maxValue ∨ ∃ r ∈ seqs, r.2 = maxValue) :
    EndsLargest (insertByEnd range seqs) := by
  constructor
  · intro r hr
    rcases insertByEnd_mem hr with rfl | hr
    · exact hrange
    · exact hstart r hr
  · rcases h with hend | ⟨r, hr, hend⟩
    · rcases insertByEnd_ends range seqs with hin | ⟨x, hx, heq⟩
      · exact ⟨range, hin, hend⟩
      · exact ⟨x, mem_insertByEnd hx, heq.trans hend⟩
    · exact ⟨r, mem_insertByEnd hr, hend⟩

theorem mergeRight_endsLargest {rest : List Range} {next : Int} (hnext : next ≤ maxValue)
    (h : ∃ r ∈ rest, r.2 = maxValue) : (mergeRight range next (reaching next rest)).1 = maxValue ∨
      ∃ r ∈ (mergeRight range next (reaching next rest)).2, r.2 = maxValue := by
  obtain ⟨r, hr, hend⟩ := h
  have hmem : r ∈ reaching next rest := by
    rw [← below_append_reaching next rest] at hr
    rcases List.mem_append.mp hr with hlow | hhigh
    · have := below_lt hlow
      omega
    · exact hhigh
  unfold mergeRight
  cases hcase : reaching next rest with
  | nil => simp [hcase] at hmem
  | cons x xs =>
    rw [hcase] at hmem
    simp only
    split
    · rcases List.mem_cons.mp hmem with rfl | hmem
      · exact .inl hend
      · exact .inr ⟨r, hmem, hend⟩
    · exact .inr ⟨r, hmem, hend⟩

theorem insertBitmapRange_endsLargest {it : Iter} (h : EndsLargest it.seqs)
    (hstart : range.1 ≤ maxValue) (hpos : 0 ≤ range.2) (hend : range.2 < maxValue) :
    EndsLargest (insertBitmapRange it range).2.seqs := by
  unfold insertBitmapRange
  rw [ofValue_of_pos (by omega)]
  rw [← seekPrevious_seqs it (range.1 - 1)] at h
  generalize seekPrevious it (range.1 - 1) = found at h
  obtain ⟨before, rest⟩ := found
  have hnew : EndsLargest (setInsert (Iter.seqs ⟨before, rest⟩) range).seqs := by
    rw [setInsert_seqs]
    exact EndsLargest.insertByEnd h.1 hstart (.inr h.2)
  cases rest with
  | nil => exact hnew
  | cons found rest =>
    dsimp only
    split
    · exact hnew
    · split
      · exact h
      · rw [setInsert_seqs]
        refine EndsLargest.insertByEnd ?_ (by simp only; omega) ?_
        · intro r hr
          refine h.1 r ?_
          rcases List.mem_append.mp hr with hr | hr
          · exact List.mem_append_left _ hr
          · exact List.mem_append_right _ (mergeRight_subset hr)
        · obtain ⟨r, hr, hrend⟩ := h.2
          rcases List.mem_append.mp hr with hr | hr
          · exact .inr ⟨r, List.mem_append_left _ hr, hrend⟩
          · refine (mergeRight_endsLargest (show range.2 + 1 ≤ maxValue by omega)
              ⟨r, hr, hrend⟩).imp_right ?_
            rintro ⟨x, hx, hxend⟩
            exact ⟨x, List.mem_append_right _ hx, hxend⟩

variable {val : Int} {numBits : Nat} {bits : Nat → BitVec 32}

theorem closeRun_iter (s : BitmapScan) :
    (DisjointSequence.closeRun val bits s).iter =
        (insertBitmapRange s.iter (ofValue s.rangeStart, ofValue (val + s.i - 1))).2 ∧
      (DisjointSequence.closeRun val bits s).rangeStart = 0 := by
  unfold DisjointSequence.closeRun
  dsimp only
  split
  · exact ⟨rfl, rfl⟩
  · split <;> exact ⟨rfl, rfl⟩

variable (val bits) in
theorem scanStep_iter (s : BitmapScan) :
    (scanStep val bits s).iter = s.iter ∧
        ((scanStep val bits s).rangeStart = s.rangeStart ∨
          (scanStep val bits s).rangeStart = val + s.i) ∨
      (scanStep val bits s).iter =
          (insertBitmapRange s.iter (ofValue s.rangeStart, ofValue (val + s.i - 1))).2 ∧
        (scanStep val bits s).rangeStart = 0 := by
  unfold scanStep
  dsimp only
  generalize (if s.bit = 32 then 0 else s.bit) = bit
  generalize (if bit = 0 then bits (s.i / 32) else s.x) = x
  by_cases hzero : bit = 0 ∧ x = 0
  · rw [if_pos hzero]
    exact .inl ⟨rfl, .inl rfl⟩
  · rw [if_neg hzero]
    by_cases hset : x.getMsbD bit = true
    · rw [if_pos hset]
      refine .inl ⟨rfl, ?_⟩
      split
      · exact .inr rfl
      · exact .inl rfl
    · rw [if_neg hset]
      by_cases hrun : s.rangeStart ≠ 0
      · rw [if_pos hrun]
        exact .inr (closeRun_iter { s with bit := bit, x := x })
      · rw [if_neg hrun]
        exact .inl ⟨rfl, .inl rfl⟩

variable (bits) in
theorem scanStep_endsLargest {s : BitmapScan} (hsmall : val + numBits ≤ maxValue) (hval : 1 ≤ val)
    (hrun : s.rangeStart ≤ maxValue) (hi : s.i < numBits) (h : EndsLargest s.iter.seqs) :
    EndsLargest (scanStep val bits s).iter.seqs ∧ (scanStep val bits s).rangeStart ≤ maxValue := by
  have hmax : (0 : Int) ≤ maxValue := by decide
  obtain ⟨hiter, hstart⟩ | ⟨hiter, hstart⟩ := scanStep_iter val bits s
  · rw [hiter]
    exact ⟨h, by omega⟩
  · rw [hiter, hstart]
    refine ⟨insertBitmapRange_endsLargest h ?_ ?_ ?_, hmax⟩
    · unfold ofValue minValue
      split <;> simp only <;> omega
    · have := ofValue_pos (val + s.i - 1)
      omega
    · unfold ofValue minValue
      split <;> omega

theorem insertBits_endsLargest {seqs after : List Range} {grew : Bool}
    (hsmall : val + numBits ≤ maxValue) (hval : 1 ≤ val) (hn : numBits < 2 ^ 31)
    (h : EndsLargest seqs) (heq : insertBits fuel seqs val numBits bits = .ok (grew, after)) :
    EndsLargest after := by
  have hloop : ∀ (fuel : Nat) (s done : BitmapScan), s.rangeStart ≤ maxValue →
      EndsLargest s.iter.seqs → scanLoop val numBits bits fuel s = .ok done →
      EndsLargest done.iter.seqs ∧ done.rangeStart ≤ maxValue := by
    intro fuel
    induction fuel with
    | zero =>
      intro s done _ _ hloop
      cases hloop
    | succ fuel ih =>
      intro s done hrun hs hloop
      unfold scanLoop at hloop
      split at hloop
      · rename_i hi
        obtain ⟨hs', hrun'⟩ := scanStep_endsLargest bits hsmall hval hrun hi hs
        exact ih _ done hrun' hs' hloop
      · cases hloop
        exact ⟨hs, hrun⟩
  unfold insertBits at heq
  cases hscan : scanLoop val numBits bits fuel (scanStart seqs) with
  | error fault => simp [hscan] at heq
  | ok done =>
    obtain ⟨hdone, hrun⟩ := hloop fuel (scanStart seqs) done (by simp [scanStart]; decide)
      (by simpa [scanStart] using h) hscan
    simp only [hscan] at heq
    split at heq
    · rename_i hopen
      obtain ⟨-, rfl⟩ := heq
      have hpos : 0 < numBits := by
        by_contra hzero
        have hnone : done = scanStart seqs := by
          cases fuel with
          | zero => cases hscan
          | succ fuel =>
            unfold scanLoop at hscan
            rw [if_neg (by simp [scanStart]; omega)] at hscan
            exact (Except.ok.inj hscan).symm
        exact hopen (by rw [hnone]; rfl)
      have hbits := bitmapEnd_eq hval hn hpos
      refine insertBitmapRange_endsLargest hdone ?_ (by simp only; omega) (by simp only; omega)
      unfold ofValue minValue
      split <;> simp only <;> omega
    · obtain ⟨-, rfl⟩ := heq
      exact hdone

end

variable {delivered : List (Int × α)}

theorem base_one_endsLargest {after : WriterInfo α} (wf : WellFormed info.recvd)
    (hnone : ¬ Covers info.recvd maxValue) (hbase : gap.gapList.bitmapBase.value = 1)
    (h : processGapI fuel durable info gap = .ok (delivered, after)) :
    Covers after.recvd maxValue := by
  have hsize := gap.gapList.numBits_le
  have hmax : (1 : Int) + 256 ≤ maxValue := by decide
  obtain ⟨grew, mid, grew', recvd, hrange, hbits, hafter, -⟩ := processGapI_eq h
  have hprev : previous gap.gapList.bitmapBase.value = maxValue := by simp [previous, hbase]
  rw [hprev] at hrange
  have hclash : ¬ Clash info.recvd (gap.gapStart.value, maxValue) := by
    rintro ⟨-, r, hr, hend, -, -⟩
    have hne := wf.canonical.nonempty r hr
    exact hnone ⟨r, hr, by omega, by omega⟩
  have hstart := gap.gapStart.value_pos
  obtain ⟨g, m, heq, hwf, hcov⟩ := insertI_spec (gap.gapStart.value, maxValue) wf
    (by simp only; omega) gap.gapStart.value_le le_rfl hclash
  rw [hrange, Except.ok.injEq, Prod.mk.injEq] at heq
  obtain ⟨-, rfl⟩ := heq
  have hends : EndsLargest mid := by
    constructor
    · intro r hr
      have h₁ := (hwf.within r hr).2
      have h₂ := hwf.canonical.nonempty r hr
      omega
    · obtain ⟨r, hr, -, hge⟩ := (hcov maxValue).mpr (.inr ⟨gap.gapStart.value_le, le_rfl⟩)
      exact ⟨r, hr, le_antisymm (hwf.within r hr).2 hge⟩
  rw [hbase] at hbits
  rw [hafter]
  exact (insertBits_endsLargest (by omega) le_rfl (by omega) hends hbits).covers

theorem insertI_range (wf : WellFormed info.recvd)
    (hbase : 1 < gap.gapList.bitmapBase.value)
    (hasc : gap.gapStart.value < gap.gapList.bitmapBase.value) :
    ∃ grew mid, insertI info.recvd (gap.gapStart.value, previous gap.gapList.bitmapBase.value) =
        .ok (grew, mid) ∧ WellFormed mid ∧
      (∀ n, Covers mid n ↔ Covers info.recvd n ∨
        (gap.gapStart.value ≤ n ∧ n < gap.gapList.bitmapBase.value)) ∧
      ∀ n, gap.gapList.bitmapBase.value ≤ n → (Covers info.recvd n ↔ Covers mid n) := by
  have hstart := gap.gapStart.value_pos
  have hend := gap.gapList.bitmapBase.value_le
  have hprev : previous gap.gapList.bitmapBase.value = gap.gapList.bitmapBase.value - 1 :=
    previous_of_ne (by omega)
  have hclash : ¬ Clash info.recvd (gap.gapStart.value, gap.gapList.bitmapBase.value - 1) := by
    rintro ⟨hmax, -⟩
    omega
  obtain ⟨grew, mid, heq, hwf, hcov⟩ := insertI_spec
    (gap.gapStart.value, gap.gapList.bitmapBase.value - 1) wf (by simp only; omega)
    (by simp only; omega) (by simp only; omega) hclash
  have hcov' : ∀ n, Covers mid n ↔ Covers info.recvd n ∨
      (gap.gapStart.value ≤ n ∧ n < gap.gapList.bitmapBase.value) := by
    intro n
    rw [hcov]
    simp only [show n ≤ gap.gapList.bitmapBase.value - 1 ↔ n < gap.gapList.bitmapBase.value by omega]
  refine ⟨grew, mid, by rw [hprev, heq], hwf, hcov', fun n hn => ?_⟩
  rw [hcov']
  have hout : ¬ (gap.gapStart.value ≤ n ∧ n < gap.gapList.bitmapBase.value) := by omega
  simp [hout]

theorem processGapI_adds (durable : Bool) (wf : WellFormed info.recvd) (fits : Fits info.recvd gap)
    (hbase : 1 < number gap.gapList.bitmapBase)
    (hasc : number gap.gapStart < number gap.gapList.bitmapBase) :
    ∃ fuel delivered after, processGapI fuel durable info gap = .ok (delivered, after) ∧
      ∀ n, Covers after.recvd n ↔ Covers info.recvd n ∨
        (gap.gapStart.value ≤ n ∧ n < number gap.gapList.bitmapBase) ∨
        Adds info.recvd (number gap.gapList.bitmapBase) gap.gapList.numBits gap.gapList.bitmap n := by
  have hsize := gap.gapList.numBits_le
  have hlast := fits.last
  have hvalue : gap.gapList.bitmapBase.value = number gap.gapList.bitmapBase := by
    rw [value_eq]
    omega
  have hstart : gap.gapStart.value < gap.gapList.bitmapBase.value := by
    rw [hvalue, value_eq]
    omega
  obtain ⟨grew, mid, hrange, hwf, hcov, hsame⟩ := insertI_range wf (by omega) hstart
  rw [hvalue] at hsame hcov
  have hops : Operands (number gap.gapList.bitmapBase) gap.gapList.numBits :=
    ⟨by omega, hlast, by omega⟩
  obtain ⟨grew', recvd, hbits, hadds, -⟩ := insertBits_adds hwf hops
    (bounded_congr hsame fits.bounded) (by omega)
  rw [← hvalue] at hbits
  refine ⟨gap.gapList.numBits + 1, (deliverHeldData { info with recvd := recvd } durable).1,
    (deliverHeldData { info with recvd := recvd } durable).2, ?_, fun n => ?_⟩
  · unfold processGapI
    simp only [hrange, hbits]
  · have heq : Adds mid (number gap.gapList.bitmapBase) gap.gapList.numBits gap.gapList.bitmap n ↔
        Adds info.recvd (number gap.gapList.bitmapBase) gap.gapList.numBits gap.gapList.bitmap n := by
      unfold Adds
      simp only [carried_congr hsame]
    rw [(deliverHeldData_frame _ durable).1, hadds, hcov, heq, or_assoc]

theorem processGapI_unique {fuel fuel' : Nat} {delivered delivered' : List (Int × α)}
    {after after' : WriterInfo α} (h : processGapI fuel durable info gap = .ok (delivered, after))
    (h' : processGapI fuel' durable info gap = .ok (delivered', after')) :
    after.recvd = after'.recvd := by
  obtain ⟨grew, mid, grew₂, recvd, hrange, hbits, heq, -⟩ := processGapI_eq h
  obtain ⟨grew', mid', grew₂', recvd', hrange', hbits', heq', -⟩ := processGapI_eq h'
  rw [hrange, Except.ok.injEq, Prod.mk.injEq] at hrange'
  obtain ⟨-, rfl⟩ := hrange'
  have hres := insertBits_unique hbits hbits'
  rw [heq, heq', (Prod.mk.inj hres).2]

/-- A GAP raises no exception and adds nothing but what it announces, if it is as the code
expects it; and only then, unless the reader has received the largest number. -/
theorem gap_adds_announced (wf : WellFormed info.recvd) (fits : Fits info.recvd gap) :
    (Expected info.recvd gap → AddsAnnounced durable info gap) ∧
      (¬ Covers info.recvd maxValue → AddsAnnounced durable info gap → Expected info.recvd gap) := by
  have hsize := gap.gapList.numBits_le
  constructor
  · rintro ⟨hbase, hasc, hcarried⟩
    obtain ⟨fuel, delivered, after, heq, hcov⟩ := processGapI_adds durable wf fits hbase hasc
    refine ⟨fuel, delivered, after, heq, fun n hn => (hcov n).mpr (.inl hn), fun n hn => ?_⟩
    rcases (hcov n).mp hn with hold | ⟨hlo, hhi⟩ | ⟨k, hk, rfl, hbit | hcar⟩
    · exact .inl hold
    · have := value_eq gap.gapStart
      exact .inr (.inl ⟨by omega, hhi⟩)
    · exact .inr (.inr ⟨k, hk, rfl, hbit⟩)
    · exact .inl (hcarried k hk hcar)
  · rintro hnone ⟨fuel, delivered, after, heq, -, honly⟩
    have hlargest : (257 : Int) < maxValue := by decide
    have hbase : 1 < number gap.gapList.bitmapBase := by
      by_contra hle
      have hone : gap.gapList.bitmapBase.value = 1 := by
        rw [value_eq]
        omega
      have hmax := base_one_endsLargest wf hnone hone heq
      rcases honly maxValue hmax with h | ⟨-, h⟩ | ⟨k, hk, h, -⟩
      · exact hnone h
      · omega
      · omega
    have hasc : number gap.gapStart < number gap.gapList.bitmapBase := by
      by_contra hge
      obtain ⟨grew, mid, grew', recvd, hrange, -⟩ := processGapI_eq heq
      have hstart := value_eq gap.gapStart
      have hend := value_eq gap.gapList.bitmapBase
      rw [previous_of_ne (by omega), insertI, if_pos (by simp only; omega)] at hrange
      cases hrange
    obtain ⟨fuel', delivered', after', heq', hcov⟩ := processGapI_adds durable wf fits hbase hasc
    rw [processGapI_unique heq heq'] at honly
    refine ⟨hbase, hasc, fun k hk hcar => ?_⟩
    rcases honly _ ((hcov _).mpr (.inr (.inr ⟨k, hk, rfl, .inr hcar⟩))) with
      h | ⟨-, h⟩ | ⟨k', -, hk', hbit⟩
    · exact h
    · omega
    · obtain rfl : k = k' := by omega
      exact absurd hcar.zero (word_ne_zero_of_bitSet hbit)

/-- A GAP for 3 to 5 and 7, to a reader that has received 1 and 2. -/
def smallGap : GapSubmessage where
  gapStart := ⟨0, 3⟩
  gapList := ⟨⟨0, 6⟩, 2, fun _ => 0x40000000, by decide⟩

theorem gap_adds_announced_small :
    AddsAnnounced false { (WriterInfo.default : WriterInfo Nat) with recvd := [(1, 2)] } smallGap := by
  have wf : WellFormed [(1, 2)] := ⟨⟨by decide, by decide⟩, by unfold Within; decide⟩
  have hbase : number smallGap.gapList.bitmapBase = 6 := by decide
  have fits : Fits [(1, 2)] smallGap := by
    refine ⟨by decide, ?_⟩
    intro p c _ hc _
    have hc : c < 2 := hc
    refine ⟨6 + c, by rw [hbase], by rw [hbase]; omega, ?_⟩
    simp only [covers_cons, covers_nil, or_false]
    omega
  refine (@gap_adds_announced Nat false { WriterInfo.default with recvd := [(1, 2)] } smallGap
    wf fits).1 ⟨by decide, by decide, ?_⟩
  intro k _ hcar
  exact absurd hcar.zero (show (0x40000000 : BitVec 32) ≠ 0 by decide)

/-- A GAP that starts at its base makes the range insertion throw. -/
theorem gap_at_base_throws :
    ¬ ∀ (durable : Bool) (info : WriterInfo Nat) (gap : GapSubmessage), WellFormed info.recvd →
      0 ≤ gap.gapStart.high.toInt → 0 ≤ gap.gapList.bitmapBase.high.toInt →
      AddsAnnounced durable info gap := by
  intro h
  obtain ⟨fuel, delivered, after, heq, -⟩ := h false WriterInfo.default
    ⟨⟨0, 3⟩, ⟨⟨0, 3⟩, 1, fun _ => 0x80000000, by decide⟩⟩ wellFormed_nil (by decide) (by decide)
  cases heq

end OpenDDS.Guarantees.GapProcessing
