import OpenDDS.Source.BitmapContents
import OpenDDS.Source.RtpsReader
import OpenDDS.Source.TransportReassembly

/-!
The NACK_FRAG submessages of a reader: `generate_nack_frags` and `extend_bitmap_range`
(dds/DCPS/transport/rtps_udp/RtpsUdpDataLink.cpp) with `has_fragments` and `remove_fragments`
of `RtpsUdpReceiveStrategy`. A fragment set starts with eight words of whatever its memory held;
`memory` gives them for each sample. Words that a length leaves out and takes in again keep their
contents.
-/
namespace OpenDDS.Source.NackFrags
open Library.RangeList SequenceNumber DisjointSequence DataSampleHeader TransportReassembly RtpsReader

/-- `RTPS::FragmentNumberSet`, with the length of its sequence of words. -/
structure FragmentNumberSet where
  bitmapBase : Nat
  length : Nat
  bitmap : Bitmap
  numBits : Nat

/-- `RtpsUdpReceiveStrategy::FragmentInfo`. -/
abbrev FragmentInfo := List (Int × FragmentNumberSet)

structure NackFragSubmessage where
  writerSN : Int
  fragmentNumberState : FragmentNumberSet
  count : Int

def fragKey (pubId : GUID) (sn : Int) : FragKey :=
  ⟨pubId, BitVec.ofInt 32 (sn / lowBase), BitVec.ofInt 32 sn⟩

/-- `TransportReassembly::has_frags`. -/
def hasFrags (r : Reassembly) (key : FragKey) : Bool := (r.fragments.lookup key).isSome

/-- The fragment set that `has_fragments` fills in with `get_gaps`. -/
def missingFrags (r : Reassembly) (key : FragKey) (memory : Bitmap) : FragmentNumberSet :=
  let gaps := r.getGaps key memory 8 0
  { bitmapBase := gaps.1, length := (gaps.2.2 + 31) / 32, bitmap := gaps.2.1, numBits := gaps.2.2 }

/-- The loop of `has_fragments` over a range, with a bound on its iterations. -/
def hasFragments (r : Reassembly) (pubId : GUID) (memory : Int → Bitmap) :
    Nat → Int → Int → FragmentInfo → Option FragmentInfo
  | 0, _, _, _ => none
  | fuel + 1, sn, last, fragInfo =>
    if sn ≤ last then
      hasFragments r pubId memory fuel (next sn) last
        (if hasFrags r (fragKey pubId sn) then
          fragInfo ++ [(sn, missingFrags r (fragKey pubId sn) (memory sn))]
        else fragInfo)
    else some fragInfo

/-- The loop of `has_fragments` without `frag_info`. -/
def hasAnyFragments (r : Reassembly) (pubId : GUID) : Nat → Int → Int → Option Bool
  | 0, _, _ => none
  | fuel + 1, sn, last =>
    if sn ≤ last then
      if hasFrags r (fragKey pubId sn) then some true
      else hasAnyFragments r pubId fuel (next sn) last
    else some false

def removeFragments (pubId : GUID) : Nat → Int → Int → Reassembly → Option Reassembly
  | 0, _, _, _ => none
  | fuel + 1, sn, last, r =>
    if sn ≤ last then
      removeFragments pubId fuel (next sn) last (r.dataUnavailableSample (fragKey pubId sn))
    else some r

def extendBitmapRange (fnSet : FragmentNumberSet) (extent : Nat) : FragmentNumberSet :=
  if extent < fnSet.bitmapBase then fnSet
  else
    let newNumBits := min 255 (toULong ((extent : Int) - fnSet.bitmapBase + 1))
    let len := (newNumBits + 31) / 32
    if newNumBits < fnSet.numBits then fnSet
    else
      let filled := fillBitmapRange (fnSet.numBits + 1) newNumBits fnSet.bitmap len fnSet.numBits
      { fnSet with length := len, bitmap := filled.2.1, numBits := filled.2.2 }

/-- The set for a sample of which nothing is held. -/
def entireRange (last : Nat) (memory : Bitmap) : FragmentNumberSet :=
  let numBits := min 256 last
  { bitmapBase := 1, length := (numBits + 31) / 32,
    bitmap := fillWords memory 0 ((numBits + 31) / 32) (BitVec.allOnes 32), numBits := numBits }

section

variable {α : Type} (r : Reassembly) (pubId : GUID) (memory : Int → Bitmap) (fuel : Nat)

/-- Step 1 of `generate_nack_frags`: the samples in the gaps of `recvd_` and above it. -/
def partiallyReceived (wi : WriterInfo α) : Option FragmentInfo :=
  match (missingSequenceRanges wi.recvd).foldlM
    (fun fragInfo range => hasFragments r pubId memory fuel range.1 range.2 fragInfo) [] with
  | none => none
  | some fragInfo =>
    if empty wi.recvd then some fragInfo
    else hasFragments r pubId memory fuel (high wi.recvd) wi.hbRange.2 fragInfo

/-- `extend_bitmap_range(frag_info.back().second, extent)`. -/
def extendBack (fragInfo : FragmentInfo) (extent : Nat) : FragmentInfo :=
  fragInfo.modifyLast fun entry => (entry.1, extendBitmapRange entry.2 extent)

/-- The body of the loop of step 2. -/
def requestFrags (fragInfo : FragmentInfo) (heartbeatFrag : Int × Nat) : Option FragmentInfo :=
  match hasFragments r pubId memory fuel heartbeatFrag.1 heartbeatFrag.1 fragInfo with
  | none => none
  | some fragInfo =>
    if !fragInfo.isEmpty then some (extendBack fragInfo heartbeatFrag.2)
    else some (fragInfo ++
      [(heartbeatFrag.1, entireRange heartbeatFrag.2 (memory heartbeatFrag.1))])

/-- The loop of step 2. An iterator is what is left of `frags_`; where it reaches `low`, it is
moved to `high`. -/
def requestOutside (low high : List (Int × Nat)) :
    Nat → List (Int × Nat) → FragmentInfo → Option FragmentInfo
  | 0, _, _ => none
  | _ + 1, [], fragInfo => some fragInfo
  | steps + 1, entry :: rest, fragInfo =>
    if (entry :: rest).length = low.length then
      match high with
      | [] => some fragInfo
      | entry :: rest =>
        match requestFrags r pubId memory fuel fragInfo entry with
        | none => none
        | some fragInfo => requestOutside low (entry :: rest) steps rest fragInfo
    else
      match requestFrags r pubId memory fuel fragInfo entry with
      | none => none
      | some fragInfo => requestOutside low high steps rest fragInfo

/-- The loop over `frag_info` that follows step 1. -/
def extended (wi : WriterInfo α) (fragInfo : FragmentInfo) : FragmentInfo :=
  fragInfo.map fun entry =>
    match wi.frags.lookup entry.1 with
    | some last => (entry.1, extendBitmapRange entry.2 last)
    | none => entry

/-- The entries of `generate_nack_frags`. -/
def fragInfoOf (wi : WriterInfo α) : Option FragmentInfo :=
  match partiallyReceived r pubId memory fuel wi with
  | none => none
  | some fragInfo =>
    let low := wi.frags.dropWhile fun entry => entry.1 < cumulativeAck wi.recvd
    let high := wi.frags.dropWhile fun entry => entry.1 ≤ lastAck wi.recvd
    requestOutside r pubId memory fuel low high fuel wi.frags (extended wi fragInfo)

/-- `generate_nack_frags`; every submessage gets the next `nackfrag_count_`. -/
def generateNackFrags (wi : WriterInfo α) (nackfragCount : Int) :
    Option (List NackFragSubmessage) :=
  (fragInfoOf r pubId memory fuel wi).map fun fragInfo =>
    fragInfo.mapIdx fun i entry => ⟨entry.1, entry.2, nackfragCount + i + 1⟩

end

section

variable {flist : List FragRange} {front : FragRange} {rest : List FragRange} {memory : Bitmap}

def ranges (flist : List FragRange) : List Range := flist.map fun fr => (fr.first, fr.second)

/-- What is kept of a sample that is not whole: ranges of fragment numbers that do not touch. -/
structure Stored (flist : List FragRange) : Prop where
  kept : flist ≠ []
  positive : ∀ fr ∈ flist, 1 ≤ fr.first
  nonempty : ∀ fr ∈ flist, fr.first ≤ fr.second
  apart : flist.Pairwise fun fr fr' => fr.second + 1 < fr'.first
  last : ∀ fr ∈ flist, fr.second < 2 ^ 32
  more : ∀ fr, flist = [fr] → fr.first = 1 → fr.second + 1 < 2 ^ 32

/-- The set of the fragments and of all numbers below one: its gaps are those of `get_gaps`. -/
def withZero : List FragRange → List Range
  | [] => [(0, 0)]
  | front :: rest =>
    if front.first = 1 then (0, front.second) :: ranges rest else (0, 0) :: ranges (front :: rest)

def firstMissing (flist : List FragRange) : Int := cumulativeAck (withZero flist) + 1

theorem canonical_ranges (h : Stored flist) : Canonical (ranges flist) where
  nonempty r hr := by
    obtain ⟨fr, hfr, rfl⟩ := List.mem_map.mp hr
    exact h.nonempty fr hfr
  separated := List.pairwise_map.mpr h.apart

theorem within_ranges (h : Stored flist) : Within 1 (2 ^ 32 - 1) (ranges flist) := by
  intro r hr
  obtain ⟨fr, hfr, rfl⟩ := List.mem_map.mp hr
  have hlast := h.last fr hfr
  exact ⟨h.positive fr hfr, by simp only; omega⟩

theorem wellFormed_withZero (h : Stored flist) : WellFormed (withZero flist) := by
  have hc := canonical_ranges h
  have hw := within_ranges h
  have hwithin : ∀ r ∈ ranges flist, 0 ≤ r.1 ∧ r.2 ≤ maxValue := fun r hr => by
    have := hw r hr
    unfold maxValue
    omega
  cases flist with
  | nil => exact absurd rfl h.kept
  | cons front rest =>
    obtain ⟨hne, hgap, hrest⟩ := canonical_cons.mp (show Canonical ((front.first, front.second) ::
      ranges rest) from hc)
    have hfront := hwithin (front.first, front.second) (by simp [ranges])
    simp only [withZero]
    split_ifs
    · refine ⟨canonical_cons.mpr ⟨by simp only; omega, hgap, hrest⟩, fun r hr => ?_⟩
      rcases List.mem_cons.mp hr with rfl | hr
      · exact ⟨le_rfl, hfront.2⟩
      · exact hwithin r (List.mem_cons_of_mem _ hr)
    · refine ⟨canonical_cons.mpr ⟨le_rfl, fun r hr => ?_, hc⟩, fun r hr => ?_⟩
      · have hpos := h.positive front (by simp)
        rcases List.mem_cons.mp (show r ∈ (front.first, front.second) :: ranges rest from hr) with rfl | hr
        · omega
        · have := hgap r hr
          omega
      · rcases List.mem_cons.mp hr with rfl | hr
        · exact ⟨le_rfl, by unfold maxValue; omega⟩
        · exact hwithin r hr

section

variable {base length : Nat}

theorem bounds_cons (front it : FragRange) {rest : List FragRange}
    (hc : Canonical (ranges (front :: it :: rest)))
    (hw : Within 1 (2 ^ 32 - 1) (ranges (front :: it :: rest))) :
    Canonical (ranges (it :: rest)) ∧ Within 1 (2 ^ 32 - 1) (ranges (it :: rest)) ∧ 1 ≤ front.first ∧
      front.first ≤ front.second ∧ front.second + 1 < it.first ∧ it.first ≤ it.second ∧
      it.second ≤ 2 ^ 32 - 1 := by
  obtain ⟨hne, hgap, hrest⟩ := canonical_cons.mp (show Canonical ((front.first, front.second) ::
    ranges (it :: rest)) from hc)
  exact ⟨hrest, fun r hr => hw r (List.mem_cons_of_mem _ hr), (hw _ List.mem_cons_self).1, hne,
    hgap _ List.mem_cons_self, hrest.nonempty _ List.mem_cons_self,
    (hw _ (List.mem_cons_of_mem _ List.mem_cons_self)).2⟩

section

variable (front : FragRange) (rest : List FragRange) (bitmap : Bitmap) (numBits : Nat)
  (hc : Canonical (ranges (front :: rest))) (hw : Within 1 (2 ^ 32 - 1) (ranges (front :: rest)))
include hc hw

theorem gapsLoop_beyond (h : (base + 32 * length : Int) ≤ front.second + 1) :
    gapsLoop base length (front :: rest) bitmap numBits = (bitmap, numBits) := by
  induction rest generalizing front with
  | nil => rfl
  | cons it rest ih =>
    obtain ⟨hrest, hw', hpos, hne, hnext, hit, htop⟩ := bounds_cons front it hc hw
    have hsecond := toULong_eq (v := front.second) (by omega) (by omega)
    have hlow := toULong_eq (v := toULong front.second + 1 - base) (by omega) (by omega)
    unfold gapsLoop
    simp only
    rw [fillBitmapRange_beyond (by omega)]
    exact ih it hrest hw' (by omega)

theorem fillRanges_gapsLoop {low high : Nat} (hle : low ≤ high)
    (hhigh : (base + high : Int) ≤ front.second + 1)
    (hloop : ∀ bitmap numBits, gapsLoop base length (front :: rest) bitmap numBits =
      (fillRanges length (offsets base true (ranges (front :: rest))) bitmap numBits).2) :
    (fillRanges length ((low, high) :: offsets base true (ranges (front :: rest))) bitmap numBits).2 =
      gapsLoop base length (front :: rest) (fillBitmapRange low high bitmap length numBits).2.1
        (fillBitmapRange low high bitmap length numBits).2.2 := by
  rw [fillRanges]
  generalize hfill : fillBitmapRange low high bitmap length numBits = result
  obtain ⟨ok, bitmap', numBits'⟩ := result
  cases ok with
  | true => exact (hloop bitmap' numBits').symm
  | false =>
    have hfull : 32 * length ≤ high := by
      by_contra hin
      rw [fillBitmapRange_mod (by omega), decide_eq_true (by omega)] at hfill
      cases hfill
    exact (gapsLoop_beyond front rest bitmap' numBits' hc hw (by omega)).symm

theorem gapsLoop_eq (hbase : (base : Int) ≤ front.second + 1) :
    gapsLoop base length (front :: rest) bitmap numBits =
      (fillRanges length (offsets base true (ranges (front :: rest))) bitmap numBits).2 := by
  induction rest generalizing front bitmap numBits with
  | nil => rfl
  | cons it rest ih =>
    obtain ⟨hrest, hw', hpos, hne, hnext, hit, htop⟩ := bounds_cons front it hc hw
    have hsecond := toULong_eq (v := front.second) (by omega) (by omega)
    have hfirst := toULong_eq (v := it.first) (by omega) (by omega)
    have hlow := toULong_eq (v := front.second + 1 - base) (by omega) (by omega)
    have hend := toULong_eq (v := it.first - 1 - base) (by omega) (by omega)
    have hoffsets : offsets base true (ranges (front :: it :: rest)) =
        (toULong (front.second + 1 - base), toULong (it.first - 1 - base)) ::
          offsets base true (ranges (it :: rest)) := rfl
    rw [hoffsets, fillRanges_gapsLoop it rest bitmap numBits hrest hw' (by omega) (by omega)
      fun bitmap numBits => ih it bitmap numBits hrest hw' (by omega)]
    conv_lhs => unfold gapsLoop
    simp only [hsecond, hfirst]

end

end

/-- Nothing is known to be missing between the fragments. -/
def OneRun (flist : List FragRange) : Prop := ∃ fr, flist = [fr] ∧ fr.first = 1

/-- The offsets, from the lowest one, of the fragments missing below the highest one. -/
def Gap (flist : List FragRange) (t : Nat) : Prop :=
  t < 256 ∧ ¬ Covers (ranges flist) (firstMissing flist + t) ∧
    firstMissing flist + t ≤ high (ranges flist)

theorem covers_withZero (h : Stored flist) {n : Int} (hn : 1 ≤ n) :
    Covers (withZero flist) n ↔ Covers (ranges flist) n := by
  cases flist with
  | nil => exact absurd rfl h.kept
  | cons front rest =>
    simp only [withZero]
    split_ifs with hfirst
    · have hranges : ranges (front :: rest) = (front.first, front.second) :: ranges rest := rfl
      rw [hranges, covers_cons, covers_cons]
      refine or_congr_left ?_
      omega
    · rw [covers_cons]
      refine or_iff_right ?_
      omega

theorem high_withZero (h : Stored flist) : high (withZero flist) = high (ranges flist) := by
  cases flist with
  | nil => exact absurd rfl h.kept
  | cons front rest =>
    simp only [withZero]
    split_ifs
    · cases rest with
      | nil => rfl
      | cons it rest => rfl
    · rfl

theorem withZero_ne_nil (flist : List FragRange) : withZero flist ≠ [] := by
  cases flist with
  | nil => simp [withZero]
  | cons front rest =>
    simp only [withZero]
    split_ifs <;> simp

theorem firstMissing_pos (h : Stored flist) : 1 ≤ firstMissing flist := by
  have hwf := wellFormed_withZero h
  have hlow := low_le_cumulativeAck hwf.canonical (withZero_ne_nil flist)
  have := low_nonneg hwf
  unfold firstMissing
  omega

theorem wantedOffset_iff (h : Stored flist) (t : Nat) :
    WantedOffset true (withZero flist) 8 t ↔ Gap flist t := by
  have hpos := firstMissing_pos h
  unfold WantedOffset Wanted Gap
  rw [high_withZero h, covers_withZero h (by unfold firstMissing at hpos; omega)]
  exact and_comm

theorem ranges_ne_nil (h : Stored flist) : ranges flist ≠ [] := by
  simpa [ranges] using h.kept

theorem highest_lt (h : Stored flist) : high (ranges flist) < 2 ^ 32 := by
  obtain ⟨r, hr, -, hle⟩ := covers_high (canonical_ranges h) (ranges_ne_nil h)
  have := within_ranges h r hr
  omega

theorem toULong_succ {v : Int} (h : 0 ≤ v) (hlt : v + 1 < 2 ^ 32) :
    toULong (toULong v + 1) = (v + 1).toNat := by
  have hv := toULong_eq h (by omega)
  have := toULong_eq (v := toULong v + 1) (by omega) (by omega)
  omega

theorem missingFrags_filled {r : Reassembly} {key : FragKey} (h : Stored flist)
    (hlookup : r.fragments.lookup key = some flist) (hmany : ¬ OneRun flist) (memory : Bitmap) :
    ∃ bitmap numBits, missingFrags r key memory =
        ⟨(firstMissing flist).toNat, (numBits + 31) / 32, bitmap, numBits⟩ ∧
      Filled memory (Gap flist) numBits bitmap ∧ numBits ≤ 256 := by
  have hwf := wellFormed_withZero h
  have hpos := firstMissing_pos h
  have hc := canonical_ranges h
  have hw := within_ranges h
  have hsize : ∀ q ∈ withZero flist, (if true then q.1 - 1 else q.2) - (cumulativeAck (withZero flist) + 1) <
      2 ^ 32 := by
    intro q hq
    have hle := le_high hwf.canonical ⟨q, hq, le_rfl, hwf.canonical.nonempty q hq⟩
    rw [high_withZero h] at hle
    have := highest_lt h
    unfold firstMissing at hpos
    simp only [if_true]
    omega
  obtain ⟨ok, bitmap, numBits, heq, hfilled, hlen, -⟩ := toBitmap_offsets memory 8 true hwf
    (withZero_ne_nil flist) hsize (fun t ht => by have := ht.2; omega)
    (nothingWiped 8 true (by decide))
  rw [toBitmap_eq memory 8 true hwf (withZero_ne_nil flist)] at heq
  have hgaps : r.getGaps key memory 8 0 = ((firstMissing flist).toNat,
      (fillRanges 8 (offsets (firstMissing flist) true (withZero flist)) memory 0).2) := by
    unfold Reassembly.getGaps
    rw [hlookup]
    cases flist with
    | nil => exact absurd rfl h.kept
    | cons front rest =>
      have hfront := hw (front.first, front.second) (by simp [ranges])
      have hne := h.nonempty front (by simp)
      simp only [Nat.reduceEqDiff, if_false]
      by_cases hfirst : front.first = 1
      · cases rest with
        | nil => exact absurd ⟨front, rfl, hfirst⟩ hmany
        | cons it rest =>
          have hit := hw (it.first, it.second) (by simp [ranges])
          have hitne := h.nonempty it (by simp)
          have hbefore := (List.pairwise_cons.mp h.apart).1 it (by simp)
          have hmissing : firstMissing (front :: it :: rest) = front.second + 1 := by
            simp [firstMissing, withZero, hfirst, cumulativeAck]
          have hoffsets : withZero (front :: it :: rest) = (0, front.second) :: ranges (it :: rest) := by
            simp [withZero, hfirst]
          rw [if_neg (by simpa using hfirst), toULong_succ (by omega) (by omega), hmissing, hoffsets]
          have hbase : ((front.second + 1).toNat : Int) = front.second + 1 := Int.toNat_of_nonneg (by omega)
          simp only [List.isEmpty_cons, Bool.false_eq_true, if_false, gapsLoop_eq front (it :: rest) memory 0 hc hw hbase.le, hbase]
          rfl
      · have hmissing : firstMissing (front :: rest) = 1 := by
          simp [firstMissing, withZero, hfirst, cumulativeAck]
        have hfirstULong := toULong_eq (v := front.first) (by omega) (by omega)
        have hend := toULong_eq (v := front.first - 2) (by omega) (by omega)
        have hoffsets : offsets 1 true (withZero (front :: rest)) =
            (0, toULong (front.first - 2)) :: offsets 1 true (ranges (front :: rest)) := by
          simp only [withZero, if_neg hfirst]
          exact congrArg (fun v => (0, toULong v) :: offsets 1 true (ranges (front :: rest)))
            (show front.first - 1 - 1 = front.first - 2 by omega)
        rw [if_pos (by simpa using hfirst), hmissing, hoffsets, hfirstULong]
        have hloop : (fillRanges 8 ((0, toULong (front.first - 2)) ::
            offsets (1 : Nat) true (ranges (front :: rest))) memory 0).2 = _ :=
          fillRanges_gapsLoop front rest memory 0 hc hw (Nat.zero_le _) (by omega)
            fun bitmap numBits => gapsLoop_eq front rest bitmap numBits hc hw (by omega)
        rw [Int.natCast_one] at hloop
        rw [hloop]
        rfl
  unfold missingFrags
  rw [hgaps, show offsets (firstMissing flist) true (withZero flist) =
    offsets (cumulativeAck (withZero flist) + 1) true (withZero flist) from rfl, heq]
  exact ⟨bitmap, numBits, rfl, hfilled.congr (wantedOffset_iff h), hlen⟩

theorem gap_zero (h : Stored flist) (hmany : ¬ OneRun flist) : Gap flist 0 := by
  have hwf := wellFormed_withZero h
  rw [← wantedOffset_iff h]
  unfold WantedOffset Wanted
  cases flist with
  | nil => exact absurd rfl h.kept
  | cons front rest =>
    obtain ⟨first, next, later, heq⟩ : ∃ first next later, withZero (front :: rest) = first :: next :: later := by
      simp only [withZero]
      split_ifs with hfirst
      · cases rest with
        | nil => exact absurd ⟨front, rfl, hfirst⟩ hmany
        | cons it rest => exact ⟨_, _, _, rfl⟩
      · exact ⟨_, _, _, rfl⟩
    rw [heq] at hwf ⊢
    have hrun := hwf.canonical.maximalRun (show first ∈ first :: next :: later by simp)
    have hnext := (canonical_cons.mp hwf.canonical).2.1 next (by simp)
    have hhigh := le_high hwf.canonical ⟨next, by simp, le_rfl, hwf.canonical.nonempty next (by simp)⟩
    rw [cumulativeAck_cons, Int.natCast_zero, add_zero]
    exact ⟨⟨hrun.after, by omega⟩, by decide⟩

theorem missingFrags_run {r : Reassembly} {key : FragKey} (h : Stored flist)
    (hlookup : r.fragments.lookup key = some flist) (hone : OneRun flist) (memory : Bitmap) :
    firstMissing flist = high (ranges flist) + 1 ∧ ∃ bitmap, missingFrags r key memory =
        ⟨(firstMissing flist).toNat, 1, bitmap, 1⟩ ∧ bitSet bitmap 0 = true := by
  obtain ⟨fr, rfl, hfirst⟩ := hone
  have hfr : fr ∈ [fr] := by simp
  have hpos := h.nonempty fr hfr
  have hlast := h.more fr rfl hfirst
  have hmissing : firstMissing [fr] = fr.second + 1 := by simp [firstMissing, withZero, hfirst, cumulativeAck]
  refine ⟨hmissing, (fillBitmapRange 0 0 memory 8 0).2.1, ?_, ?_⟩
  · have hbits : (fillBitmapRange 0 0 memory 8 0).2.2 = 1 := by
      rfl
    have hgaps : r.getGaps key memory 8 0 = ((firstMissing [fr]).toNat,
        (fillBitmapRange 0 0 memory 8 0).2.1, 1) := by
      unfold Reassembly.getGaps
      rw [hlookup, hmissing]
      simp only [Nat.reduceEqDiff, if_false, List.isEmpty_nil, if_true]
      rw [if_neg (by simpa using hfirst), toULong_succ (by omega) hlast, ← hbits]
    simp [missingFrags, hgaps]
  · rw [fillBitmapRange_mod (by decide), filledArray_bits (Nat.zero_le _) le_rfl (.inl (by decide))]
    simp [clampTo]

end

section

variable {fnSet : FragmentNumberSet} {extent : Nat}

def FragmentNumberSet.Marks (fnSet : FragmentNumberSet) (i : Nat) : Prop :=
  i < fnSet.numBits ∧ bitSet fnSet.bitmap i = true

@[simp] theorem extend_base (fnSet : FragmentNumberSet) (extent : Nat) :
    (extendBitmapRange fnSet extent).bitmapBase = fnSet.bitmapBase := by
  unfold extendBitmapRange
  simp only
  split_ifs <;> rfl

/-- The number of bits that an extension asks for, and the last bit that it writes. -/
def newNumBits (fnSet : FragmentNumberSet) (extent : Nat) : Nat :=
  min 255 (extent + 1 - fnSet.bitmapBase)

def lastWritten (newNumBits : Nat) : Nat := if 32 ∣ newNumBits then newNumBits - 1 else newNumBits

/-- An extension goes beyond the bits, other than by one to the end of a word. -/
def Grows (fnSet : FragmentNumberSet) (extent : Nat) : Prop :=
  fnSet.numBits < newNumBits fnSet extent ∧
    ¬ (newNumBits fnSet extent = fnSet.numBits + 1 ∧ 32 ∣ fnSet.numBits + 1)

theorem filledArray_gap {bitmap : Bitmap} {high : Nat} (hsmall : high ≤ 255)
    (hword : high % 32 ≠ 0 ∧ high % 32 ≠ 31) (i : Nat) :
    bitSet (filledArray (high + 1) high bitmap high) i = (bitSet bitmap i && !decide (i = high)) := by
  have hpos : 0 < high := by omega
  have hzeroed : fillWords bitmap ((high + 31) % 2 ^ 32 / 32) ((high + 1) / 32) 0 = bitmap := by
    funext w
    rw [fillWords, if_neg (by omega)]
  unfold filledArray
  simp only [hzeroed]
  rw [if_neg (by omega), bitSet_fillWords, if_neg (by omega), bitSet_setWord]
  by_cases hi : i / 32 = (high + 1) / 32
  · rw [if_pos hi]
    unfold lowWord
    simp only [hpos, if_true]
    rw [if_pos (by omega), if_pos (by omega), getMsbD_setBitsIn (by omega),
      getMsbD_clearBitsIn (by omega) (by omega)]
    have hset : ¬ ((high + 1) % 32 ≤ i % 32 ∧ i % 32 < high % 32 + 1) := by omega
    have hclear : ((high - 1) % 32 + 1 ≤ i % 32 ∧ i % 32 < (high + 1) % 32) ↔ i = high := by omega
    simp only [hset, decide_false, Bool.or_false, hclear]
    rw [bitSet, hi]
  · have hne : i ≠ high := by omega
    rw [if_neg hi]
    simp [hne]

theorem extend_marks (hbase : 1 ≤ fnSet.bitmapBase) (hextent : extent < 2 ^ 32)
    (hbits : 0 < fnSet.numBits) (i : Nat) :
    (extendBitmapRange fnSet extent).Marks i ↔ fnSet.Marks i ∨ (Grows fnSet extent ∧
      ((fnSet.numBits < i ∧ i ≤ lastWritten (newNumBits fnSet extent)) ∨
        (i = fnSet.numBits ∧ 32 ∣ i + 1 ∧ bitSet fnSet.bitmap i = true))) := by
  have hsame : ¬ Grows fnSet extent → (fnSet.Marks i ↔ fnSet.Marks i ∨ (Grows fnSet extent ∧
      ((fnSet.numBits < i ∧ i ≤ lastWritten (newNumBits fnSet extent)) ∨
        (i = fnSet.numBits ∧ 32 ∣ i + 1 ∧ bitSet fnSet.bitmap i = true)))) :=
    fun h => (or_iff_left fun hg => h hg.1).symm
  unfold extendBitmapRange
  split_ifs with hbelow
  · refine hsame fun hg => ?_
    have := hg.1
    unfold newNumBits at this
    omega
  have hulong := toULong_eq (v := (extent : Int) - fnSet.bitmapBase + 1) (by omega) (by omega)
  have hnew : min 255 (toULong ((extent : Int) - fnSet.bitmapBase + 1)) = newNumBits fnSet extent := by
    unfold newNumBits
    omega
  simp only [hnew]
  split_ifs with hless
  · exact hsame fun hg => by have := hg.1; omega
  unfold Grows lastWritten at hsame ⊢
  generalize newNumBits fnSet extent = high at *
  by_cases hin : (fnSet.numBits + 1) / 32 < (high + 31) / 32
  · rw [fillBitmapRange_eq hin (by unfold clampTo; omega)]
    have hclamp : clampTo high ((high + 31) / 32) = if 32 ∣ high then high - 1 else high := by
      unfold clampTo
      split_ifs <;> omega
    by_cases hlast : high = fnSet.numBits
    · -- The set ends at the extent already.
      rw [← hsame (by omega), hclamp, if_neg (by omega), hlast]
      unfold FragmentNumberSet.Marks
      simp only [filledArray_gap (show fnSet.numBits ≤ 255 by omega)
          (show fnSet.numBits % 32 ≠ 0 ∧ fnSet.numBits % 32 ≠ 31 by omega),
        Bool.and_eq_true, Bool.not_eq_true', decide_eq_false_iff_not]
      constructor
      · rintro ⟨hi, hbit, hne⟩
        exact ⟨by omega, hbit⟩
      · rintro ⟨hi, hbit⟩
        exact ⟨by omega, hbit, by omega⟩
    · have hgrows : fnSet.numBits < high ∧ ¬ (high = fnSet.numBits + 1 ∧ 32 ∣ fnSet.numBits + 1) := by omega
      rw [hclamp]
      generalize hwritten : (if 32 ∣ high then high - 1 else high) = written
      have hle : fnSet.numBits + 1 ≤ written := by
        split_ifs at hwritten <;> omega
      unfold FragmentNumberSet.Marks
      have hstart : fnSet.numBits ≤ 2 ^ 32 - 32 := by omega
      simp only [filledArray_bits hle (Nat.le_succ fnSet.numBits) (.inl hstart)]
      by_cases hi : i < fnSet.numBits
      · have hnot : ¬ (fnSet.numBits < i ∧ i ≤ written) := by omega
        have hne : i ≠ fnSet.numBits := by omega
        simp [hi, hnot, hne, show i < written + 1 by omega]
      · by_cases hat : i = fnSet.numBits
        · subst hat
          have hword : (0 < fnSet.numBits ∧ fnSet.numBits / 32 = (fnSet.numBits - 1) / 32 ∧
              fnSet.numBits / 32 < (fnSet.numBits + 1) / 32) ↔ 32 ∣ fnSet.numBits + 1 := by omega
          simp only [lt_irrefl, if_false, Nat.lt_succ_self, if_true, hword, false_and, false_or, hgrows,
            not_false_eq_true, true_and, Bool.and_eq_true, decide_eq_true_eq]
          refine and_iff_right ?_
          omega
        · rw [if_neg hi, if_neg (by omega)]
          simp only [hi, hat, false_and, or_false, false_or, hgrows, true_and]
          by_cases hw : i ≤ written
          · have hbehind : fnSet.numBits < i ∧ i < written + 1 := by omega
            simp [hw, hbehind]
          · omega
  · rw [fillBitmapRange_beyond (by omega)]
    exact hsame fun hg => by omega

end

end OpenDDS.Source.NackFrags
