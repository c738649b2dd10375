import OpenDDS.Guarantees.GapProcessing
import OpenDDS.Library.Folds
import OpenDDS.Source.BitmapContents
import OpenDDS.Source.RtpsWriter

/-!
# What a sent GAP denotes

`marshal_gaps` splits the numbers at `cumulative_ack()`: those up to it are a range, those above
it a bitmap. The bitmap says more than it should where `to_bitmap` leaves the memory of the
words as it was, and the reader decodes more than it says where a set bit at the end of a word is
followed by a word of zeros.
-/
namespace OpenDDS.Guarantees.GapEncoding

open Library Library.RangeList Source Source.SequenceNumber Source.DisjointSequence
open Source.RtpsReader Source.RtpsMessages Source.RtpsWriter GapProcessing

section

/-- `getHigh` and `getLow`. -/
def halves (v : Int) : SequenceNumber_t := ⟨BitVec.ofInt 32 (v / lowBase), BitVec.ofInt 32 v⟩

theorem number_halves {v : Int} (hpos : 0 ≤ v) (hmax : v ≤ maxValue) : number (halves v) = v := by
  have hmax : v < 2 ^ 63 := by
    unfold maxValue at hmax
    omega
  unfold number halves lowBase
  have hhigh : (BitVec.ofInt 32 (v / 2 ^ 32)).toInt = v / 2 ^ 32 := by
    rw [BitVec.toInt_ofInt]
    exact Int.bmod_eq_of_le (by omega) (by omega)
  have hlow : ((BitVec.ofInt 32 v).toNat : Int) = v % 2 ^ 32 := by
    rw [BitVec.toNat_ofInt]
    omega
  rw [hhigh, hlow]
  omega

theorem value_halves {v : Int} (hpos : 1 ≤ v) (hmax : v ≤ maxValue) : (halves v).value = v := by
  rw [value_eq, number_halves (by omega) hmax]
  omega

end

variable {α : Type} {w : Writer} {gaps : List Range} {memory : Bitmap} {gap : Gap}

/-- The submessage of a GAP whose bitmap has at most eight words. -/
def submessage (gap : Gap) (h : gap.numBits ≤ 256) : GapSubmessage where
  gapStart := halves gap.gapStart
  gapList := ⟨halves gap.gapListBase, gap.numBits, gap.bitmap, h⟩

/-- A GAP declares the numbers in `gaps` up to the end of its bitmap, and a reader that processes
it adds no other number. -/
structure Denotes (α : Type) (gaps : List Range) (gap : Gap) : Prop where
  bound : gap.numBits ≤ 256
  declares : ∀ n, gap.Declares n ↔ Covers gaps n ∧ n < gap.gapListBase + 256
  inserts : ∀ (durable : Bool) (info : WriterInfo α) (fuel : Nat) (delivered : List (Int × α))
    (after : WriterInfo α), WellFormed info.recvd →
    processGapI fuel durable info (submessage gap bound) = .ok (delivered, after) →
    ∀ n, Covers after.recvd n → Covers info.recvd n ∨ Covers gaps n

/-- The offsets of the bitmap that stand for numbers in `gaps`. -/
def Beyond (gaps : List Range) (t : Nat) : Prop := Covers gaps (cumulativeAck gaps + 1 + t) ∧ t < 256

/-- The memory of the bitmap has no ones at the positions that `to_bitmap` leaves and counts, and
no number at the end of a word of the bitmap is followed by a word without numbers and by further
numbers. -/
structure Clean (gaps : List Range) (memory : Bitmap) : Prop where
  memory : ∀ i, Exposed (Beyond gaps) i → (∃ t, Beyond gaps t ∧ i < t) → bitSet memory i = false
  words : ∀ v, 0 < v → Beyond gaps (32 * v - 1) → (∃ t, Beyond gaps t ∧ 32 * v + 32 ≤ t) →
    ∃ t, Beyond gaps t ∧ t / 32 = v

section

theorem beyond_of_not_disjoint (hne : gaps ≠ []) (hd : disjoint gaps = false) (t : Nat) :
    ¬ Beyond gaps t := by
  rintro ⟨hcov, -⟩
  rw [eq_singleton_of_not_disjoint hne hd] at hcov
  obtain ⟨r, hr, -, hle⟩ := hcov
  rw [List.mem_singleton.mp hr] at hle
  rw [cumulativeAck_cons] at hle
  omega

theorem gapList_filled (wf : WellFormed gaps) (hne : gaps ≠ [])
    (hsize : high gaps - low gaps < 2 ^ 32) (hd : disjoint gaps = true) :
    Filled memory (Beyond gaps) (gapList gaps memory).2 (gapList gaps memory).1 ∧
      (gapList gaps memory).2 ≤ 256 := by
  have hlow := low_le_cumulativeAck wf.canonical hne
  have hhigh := cumulativeAck_lt_high wf hd
  have hmax := high_le wf hne
  have hnext : next (cumulativeAck gaps) = cumulativeAck gaps + 1 := next_of_lt (by omega)
  have hwords : bitmapNumLongs (cumulativeAck gaps + 1) (high gaps) ≤ 8 := Nat.min_le_left _ _
  obtain ⟨ok, bitmap, numBits, heq, hfilled, hlen, -⟩ := toBitmap_filled memory
    (bitmapNumLongs (cumulativeAck gaps + 1) (high gaps)) false wf hne (by omega)
    (nothingWiped _ false (by omega))
  have hlist : gapList gaps memory = (bitmap, numBits) := by
    unfold gapList
    rw [if_pos hd, hnext, heq]
  rw [hlist]
  refine ⟨hfilled.congr fun t => ?_, show numBits ≤ 256 by omega⟩
  refine and_congr_right fun hcov => ?_
  have hle : cumulativeAck gaps + 1 + t ≤ high gaps := le_high wf.canonical hcov
  unfold bitmapNumLongs
  rw [Int.tdiv_eq_ediv_of_nonneg (by omega)]
  have hulong := toULong_eq (v := (high gaps - (cumulativeAck gaps + 1) + 32) / 32)
    (by omega) (by omega)
  omega

end

section

theorem marshalGaps_eq (h : marshalGaps w gaps memory = some gap) :
    gap.gapStart = low gaps ∧ gap.gapListBase = next (cumulativeAck gaps) ∧
      gap.numBits = (gapList gaps memory).2 ∧ gap.bitmap = (gapList gaps memory).1 := by
  unfold marshalGaps at h
  split at h
  · cases h
  · cases h
    exact ⟨rfl, rfl, rfl, rfl⟩

theorem previous_next {v : Int} (h : 1 ≤ v) : previous (next v) = v := by
  unfold next
  split
  · rename_i heq
    rw [heq]
    rfl
  · rw [previous_of_ne (by omega)]
    omega

theorem declares_iff (wf : WellFormed gaps) (hne : gaps ≠ []) (hstart : gap.gapStart = low gaps)
    (hbase : gap.gapListBase = cumulativeAck gaps + 1) (hbound : gap.numBits ≤ 256)
    (hcounted : ∀ t, Beyond gaps t → t < gap.numBits) :
    (∀ n, gap.Declares n ↔ Covers gaps n ∧ n < gap.gapListBase + 256) ↔
      ∀ i < gap.numBits, (bitSet gap.bitmap i = true ↔ Beyond gaps i) := by
  unfold Gap.Declares
  rw [hstart, hbase]
  constructor
  · intro hdeclares i hi
    have hiff := hdeclares (cumulativeAck gaps + 1 + i)
    constructor
    · intro hbit
      exact ⟨(hiff.mp (.inr ⟨i, hi, hbit, rfl⟩)).1, by omega⟩
    · rintro ⟨hcov, -⟩
      obtain ⟨-, hlt⟩ | ⟨k, -, hbit, hk⟩ := hiff.mpr ⟨hcov, by omega⟩
      · omega
      · obtain rfl : k = i := by omega
        exact hbit
  · intro hbits n
    constructor
    · rintro (⟨hge, hlt⟩ | ⟨k, hk, hbit, rfl⟩)
      · exact ⟨covers_of_le_cumulativeAck hne hge (by omega), by omega⟩
      · exact ⟨((hbits k hk).mp hbit).1, by omega⟩
    · rintro ⟨hcov, hlt⟩
      have hge := low_le wf.canonical hcov
      by_cases hn : n ≤ cumulativeAck gaps
      · exact .inl ⟨hge, by omega⟩
      · obtain ⟨t, rfl⟩ : ∃ t : Nat, n = cumulativeAck gaps + 1 + t :=
          ⟨(n - (cumulativeAck gaps + 1)).toNat, by omega⟩
        have hbeyond : Beyond gaps t := ⟨hcov, by omega⟩
        exact .inr ⟨t, hcounted t hbeyond, (hbits t (hcounted t hbeyond)).mpr hbeyond, rfl⟩

theorem inserts_of_noRunOn (wf : WellFormed gaps) (hne : gaps ≠ []) (hpos : 1 ≤ low gaps)
    (hstart : gap.gapStart = low gaps) (hbase : gap.gapListBase = next (cumulativeAck gaps))
    (hbound : gap.numBits ≤ 256)
    (hbits : ∀ i < gap.numBits, bitSet gap.bitmap i = true → Covers gaps (gap.gapListBase + i))
    (hwords : NoRunOn gap.numBits gap.bitmap) {info after : WriterInfo α} {durable : Bool} {fuel : Nat}
    {delivered : List (Int × α)} (hinfo : WellFormed info.recvd)
    (h : processGapI fuel durable info (submessage gap hbound) = .ok (delivered, after)) (n : Int)
    (hn : Covers after.recvd n) : Covers info.recvd n ∨ Covers gaps n := by
  have hlow := low_le_cumulativeAck wf.canonical hne
  have hack : cumulativeAck gaps ≤ maxValue :=
    (le_high wf.canonical (covers_of_le_cumulativeAck hne hlow le_rfl)).trans (high_le wf hne)
  have hnext : 1 ≤ next (cumulativeAck gaps) ∧ next (cumulativeAck gaps) ≤ maxValue := by
    unfold next
    split <;> omega
  obtain ⟨grew, mid, grew', recvd, hrange, hinsert, hafter, -⟩ := processGapI_eq h
  simp only [submessage] at hrange hinsert
  rw [hstart, hbase, value_halves hpos (by omega), value_halves hnext.1 hnext.2,
    previous_next (by omega)] at hrange
  rw [hbase, value_halves hnext.1 hnext.2, ← hbase] at hinsert
  obtain ⟨g, m, heq, -, -, -, hmid⟩ := insertI_weak (low gaps, cumulativeAck gaps) hinfo
    (by simp only; omega) hlow hack
  rw [hrange, Except.ok.injEq, Prod.mk.injEq] at heq
  obtain ⟨-, rfl⟩ := heq
  rw [hafter] at hn
  obtain hn | ⟨k, rfl, hdecodes⟩ := insertBits_decoded (by omega) (by omega) hinsert n hn
  · obtain hold | ⟨hge, hle⟩ := hmid n hn
    · exact .inl hold
    · exact .inr (covers_of_le_cumulativeAck hne hge hle)
  · exact .inr (hbits k hdecodes.bound (hdecodes.bitSet_of_noRunOn hwords))

theorem noRunOn_of_words {T : Nat → Prop} {numBits : Nat} {bitmap prior : Bitmap}
    (hfilled : Filled prior T numBits bitmap)
    (hbits : ∀ i < numBits, (bitSet bitmap i = true ↔ T i))
    (hwords : ∀ v, 0 < v → T (32 * v - 1) → (∃ t, T t ∧ 32 * v + 32 ≤ t) → ∃ t, T t ∧ t / 32 = v) :
    NoRunOn numBits bitmap := by
  intro v hv hlt hzero
  by_contra hset
  have hT : T (32 * v - 1) := (hbits _ (by omega)).mp (by simpa using hset)
  have hlast := hfilled.last (by omega)
  obtain ⟨t, ht, hword⟩ : ∃ t, T t ∧ t / 32 = v := by
    by_cases hsame : (numBits - 1) / 32 = v
    · exact ⟨numBits - 1, hlast, hsame⟩
    · exact hwords v hv hT ⟨numBits - 1, hlast, by omega⟩
  have hbit := (hbits t (hfilled.bound t ht)).mpr ht
  unfold bitSet at hbit
  rw [hword, hzero] at hbit
  simp at hbit

theorem words_of_inserts (hpos : 1 ≤ low gaps) (wf : WellFormed gaps) (hne : gaps ≠ [])
    (hmax : high gaps < maxValue) (hstart : gap.gapStart = low gaps)
    (hbase : gap.gapListBase = cumulativeAck gaps + 1) (hdenotes : Denotes α gaps gap)
    (hfilled : Filled memory (Beyond gaps) gap.numBits gap.bitmap)
    (hbits : ∀ i < gap.numBits, (bitSet gap.bitmap i = true ↔ Beyond gaps i)) {v : Nat} (hv : 0 < v)
    (hend : Beyond gaps (32 * v - 1)) (hfurther : ∃ t, Beyond gaps t ∧ 32 * v + 32 ≤ t) :
    ∃ t, Beyond gaps t ∧ t / 32 = v := by
  by_contra hnone
  have hbound := hdenotes.bound
  obtain ⟨t, ht, hle⟩ := hfurther
  have htn := hfilled.bound t ht
  have hlow := low_le_cumulativeAck wf.canonical hne
  have hlast := hfilled.last (by omega)
  have hlasthigh := le_high wf.canonical hlast.1
  have hhalves : number (halves gap.gapListBase) = gap.gapListBase :=
    number_halves (by omega) (by omega)
  have hhalves' : number (halves gap.gapStart) = gap.gapStart := number_halves (by omega) (by omega)
  -- The word is zero.
  have hzero : gap.bitmap v = 0 := by
    apply BitVec.eq_of_getMsbD_eq
    intro j hj
    have hclear : bitSet gap.bitmap (32 * v + j) = false := by
      by_contra hset
      have hb := (hbits (32 * v + j) (by omega)).mp (by simpa using hset)
      exact hnone ⟨32 * v + j, hb, by omega⟩
    unfold bitSet at hclear
    rw [show (32 * v + j) / 32 = v by omega, show (32 * v + j) % 32 = j by omega] at hclear
    rw [hclear]
    simp
  have hset : bitSet gap.bitmap (32 * v - 1) = true :=
    (hbits _ (hfilled.bound _ hend)).mpr hend
  have hcarried : Carried [] gap.gapListBase gap.bitmap (32 * v) := by
    refine ⟨32 * v - 1, by omega, hset, fun q hq hq' => ?_, ?_⟩
    · rw [show q / 32 = v by omega, hzero]
    · rw [Skipped]
      rintro ⟨p', c, -, -, hc, hstored, -⟩
      obtain ⟨r, hr, -⟩ := hstored c (le_refl c) hc
      exact absurd hr List.not_mem_nil
  have fits : Fits (WriterInfo.default : WriterInfo α).recvd (submessage gap hbound) := by
    refine ⟨?_, fun p c _ hc _ => ?_⟩
    · change number (halves gap.gapListBase) + gap.numBits ≤ maxValue
      omega
    · have hc : c < gap.numBits := hc
      refine ⟨_, le_refl _, by omega, ?_⟩
      rintro ⟨r, hr, -⟩
      exact absurd hr List.not_mem_nil
  have hasc : number (submessage gap hbound).gapStart <
      number (submessage gap hbound).gapList.bitmapBase := by
    change number (halves gap.gapStart) < number (halves gap.gapListBase)
    omega
  have hone : 1 < number (submessage gap hbound).gapList.bitmapBase := by
    change 1 < number (halves gap.gapListBase)
    omega
  obtain ⟨fuel, delivered, after, hprocess, hadds⟩ :=
    processGapI_adds false wellFormed_nil fits hone hasc
  have hadded : Covers after.recvd (gap.gapListBase + (32 * v : Nat)) := by
    refine (hadds _).mpr (.inr (.inr ⟨32 * v, show 32 * v < gap.numBits by omega, ?_, .inr ?_⟩))
    · change _ = number (halves gap.gapListBase) + _
      rw [hhalves]
    · change Carried [] (number (halves gap.gapListBase)) gap.bitmap (32 * v)
      rw [hhalves]
      exact hcarried
  obtain ⟨r, hr, -⟩ | hcov :=
    hdenotes.inserts false WriterInfo.default fuel delivered after wellFormed_nil hprocess _ hadded
  · exact absurd hr List.not_mem_nil
  · rw [hbase] at hcov
    exact hnone ⟨32 * v, ⟨hcov, by omega⟩, by omega⟩

/-- A GAP denotes its numbers if the memory of the bitmap and the words are clean; and only then,
unless the numbers reach the largest one. -/
theorem gap_denotes (wf : WellFormed gaps) (hne : gaps ≠ []) (hpos : 1 ≤ low gaps)
    (hsize : high gaps - low gaps < 2 ^ 32) (h : marshalGaps w gaps memory = some gap) :
    (Clean gaps memory → Denotes α gaps gap) ∧
      (high gaps < maxValue → Denotes α gaps gap → Clean gaps memory) := by
  obtain ⟨hstart, hbase, hnum, hbitmap⟩ := marshalGaps_eq h
  have hlow := low_le_cumulativeAck wf.canonical hne
  have hackHigh := le_high wf.canonical (covers_of_le_cumulativeAck hne hlow le_rfl)
  have hmaxHigh := high_le wf hne
  cases hd : disjoint gaps with
  | false =>
    have hnone := beyond_of_not_disjoint hne hd
    have hlist : gapList gaps memory = (setWord memory 0 0, 1) := by
      unfold gapList
      rw [if_neg (by simp [hd])]
    rw [hlist] at hnum hbitmap
    have hclear : ∀ i < gap.numBits, bitSet gap.bitmap i = false := by
      intro i hi
      obtain rfl : i = 0 := by omega
      rw [hbitmap]
      simp [bitSet, setWord]
    have hbound : gap.numBits ≤ 256 := hnum ▸ show 1 ≤ 256 by omega
    refine ⟨fun _ => ⟨hbound, ?_, ?_⟩, fun _ _ => ⟨?_, ?_⟩⟩
    · by_cases hack : cumulativeAck gaps = maxValue
      · -- The base is 1, and all numbers are far above it.
        intro n
        have hone : gap.gapListBase = 1 := by rw [hbase, hack, next_maxValue]
        have hlarge : (2 : Int) ^ 33 < maxValue := by decide
        constructor
        · rintro (⟨hge, hlt⟩ | ⟨k, hk, hbit, -⟩)
          · omega
          · rw [hclear k hk] at hbit
            cases hbit
        · rintro ⟨hcov, hlt⟩
          have hge := low_le wf.canonical hcov
          omega
      · have hbase' : gap.gapListBase = cumulativeAck gaps + 1 := by
          rw [hbase, next_of_lt (by omega)]
        refine (declares_iff wf hne hstart hbase' hbound fun t ht => absurd ht (hnone t)).mpr ?_
        intro i hi
        rw [hclear i hi]
        exact iff_of_false (by simp) (hnone i)
    · intro durable info fuel delivered after hinfo hprocess n hn
      refine inserts_of_noRunOn wf hne hpos hstart hbase hbound (fun i hi hbit => ?_) ?_ hinfo
        hprocess n hn
      · rw [hclear i hi] at hbit
        cases hbit
      · intro v hv hlt
        omega
    · rintro i - ⟨t, ht, -⟩
      exact absurd ht (hnone t)
    · exact fun v _ hend => absurd hend (hnone _)
  | true =>
    have hlt := cumulativeAck_lt_high wf hd
    have hbase' : gap.gapListBase = cumulativeAck gaps + 1 := by
      rw [hbase, next_of_lt (by omega)]
    obtain ⟨hfilled, hbound⟩ := @gapList_filled gaps memory wf hne hsize hd
    rw [← hnum, ← hbitmap] at hfilled
    rw [← hnum] at hbound
    have hdeclares := declares_iff wf hne hstart hbase' hbound hfilled.bound
    constructor
    · rintro ⟨hmemory, hwords⟩
      have hbits := hfilled.exact_iff.mpr hmemory
      refine ⟨hbound, hdeclares.mpr hbits, fun durable info fuel delivered after hinfo hprocess n hn => ?_⟩
      refine inserts_of_noRunOn wf hne hpos hstart hbase hbound (fun i hi hbit => ?_)
        (noRunOn_of_words hfilled hbits hwords) hinfo hprocess n hn
      rw [hbase']
      exact ((hbits i hi).mp hbit).1
    · intro hmax hdenotes
      have hbits := hdeclares.mp hdenotes.declares
      refine ⟨hfilled.exact_iff.mp hbits, fun v hv hend hfurther => ?_⟩
      exact words_of_inserts hpos wf hne hmax hstart hbase' hdenotes hfilled hbits hv hend hfurther

end

section

def idleWriter : Writer := (State.initial [] false).writer

/-- The GAP for 3, 4 and 6, in memory that was all ones. -/
theorem gap_denotes_three : ∃ gap, marshalGaps idleWriter [(3, 4), (6, 6)]
    (fun _ => BitVec.allOnes 32) = some gap ∧ Denotes Nat [(3, 4), (6, 6)] gap := by
  have wf : WellFormed [(3, 4), (6, 6)] := ⟨⟨by decide, by decide⟩, by unfold Within; decide⟩
  have hbeyond : ∀ t, Beyond [(3, 4), (6, 6)] t → t = 1 := by
    rintro t ⟨hcov, -⟩
    have hack : cumulativeAck [(3, 4), (6, 6)] = 4 := rfl
    simp only [hack, covers_cons, covers_nil, or_false] at hcov
    omega
  obtain ⟨gap, hgap⟩ : ∃ gap, marshalGaps idleWriter [(3, 4), (6, 6)]
    (fun _ => BitVec.allOnes 32) = some gap := ⟨_, rfl⟩
  refine ⟨gap, hgap, (gap_denotes wf (by decide) (by decide) (by decide) hgap).1 ⟨?_, ?_⟩⟩
  · rintro i ⟨⟨⟨t, ht, hlt⟩, -⟩, ⟨j, hj, hsame⟩, -⟩
    have := hbeyond j hj
    omega
  · intro v hv hend
    have := hbeyond _ hend
    omega

def runOnGap : Gap where
  gapStart := 1
  gapListBase := 2
  numBits := 65
  bitmap := (gapList [(1, 1), (33, 33), (66, 66)] fun _ => 0).1
  readers := []

/-- Bit 31 of the bitmap is set and the next word is zero, which a reader takes for a run that
goes on. -/
theorem run_carried_over : ¬ ∀ (w : Writer) (gaps : List Range) (memory : Bitmap) (gap : Gap),
    WellFormed gaps → gaps ≠ [] → 1 ≤ low gaps → high gaps - low gaps < 2 ^ 32 →
      marshalGaps w gaps memory = some gap → Denotes Nat gaps gap := by
  intro claim
  have wf : WellFormed [(1, 1), (33, 33), (66, 66)] :=
    ⟨⟨by decide, by decide⟩, by unfold Within; decide⟩
  have hdenotes := claim idleWriter [(1, 1), (33, 33), (66, 66)] (fun _ => 0) runOnGap wf (by decide)
    (by decide) (by decide) rfl
  have hrecvd : (processGapI 66 false (WriterInfo.default : WriterInfo Nat)
      (submessage runOnGap (by decide))).toOption.map (fun r => r.2.recvd) =
        some [(1, 1), (33, 66)] := by
    decide +kernel
  obtain ⟨⟨delivered, after⟩, hprocess, hafter⟩ := Option.map_eq_some_iff.mp hrecvd
  have hadded : Covers after.recvd 34 := by
    rw [hafter]
    exact ⟨(33, 66), by simp, by decide, by decide⟩
  obtain ⟨r, hr, -⟩ | ⟨r, hr, hlow, hhigh⟩ := hdenotes.inserts false WriterInfo.default 66 delivered
    after wellFormed_nil (Folds.toOption_eq_some hprocess) 34 hadded
  · exact absurd hr List.not_mem_nil
  · simp only [List.mem_cons, List.not_mem_nil, or_false] at hr
    rcases hr with rfl | rfl | rfl <;> simp only at hlow hhigh <;> omega

end

end OpenDDS.Guarantees.GapEncoding
