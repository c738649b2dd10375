import OpenDDS.Source.DurableReplies
import Mathlib.Data.List.Nodup

/-!
# Replies to NACKs for durable data

The gaps announced with the durable samples that are resent run from the lowest number
requested to the last sample resent. They are computed from the samples that were
requested alone, so a durable sample between them that was not requested is announced as
irrelevant; and a request behind the last sample resent stays without an answer.
-/
namespace OpenDDS.Guarantees.DurableRequests
open Library.RangeList Source Source.SequenceNumber Source.DisjointSequence
open Source.RtpsMessages Source.RtpsWriter

/-- Every request is answered, and no durable sample is announced as irrelevant. -/
structure Answers (durableData : List Int) (Requested : Int → Prop) (reply : DurableReply) :
    Prop where
  resent : ∀ n ∈ durableData, Requested n → reply.resent.count n = 1
  spared : ∀ n, Covers reply.announced n → n ∉ durableData
  announced : reply.resent ≠ [] ∨ reply.announced ≠ [] → ∀ n, Requested n → n ∉ durableData →
    (∃ k ∈ durableData, n < k) → Covers reply.announced n

/-- If a durable sample is asked for: those between the lowest number asked for and it are too,
and every other number requested lies below such a sample or above all of them. -/
def Answerable (durableData : List Int) (Requested Asked : Int → Prop) : Prop :=
  (∃ m ∈ durableData, Asked m) →
    (∀ q, Asked q → ∀ m ∈ durableData, Asked m → ∀ k ∈ durableData, q ≤ k → k ≤ m → Asked k) ∧
      ∀ n, Requested n → n ∉ durableData → (∃ k ∈ durableData, n < k) →
        ∃ m ∈ durableData, Asked m ∧ n < m

section

variable {keys : List Int} {requests : List Range}

/-- The gaps cover what lies in front of the samples behind `lastSent`, apart from these. -/
theorem durabilityGaps_spec {seqs : List Int} (hs : seqs.Pairwise (· < ·)) (lastSent : Int)
    (hpos : 0 ≤ lastSent) (hafter : ∀ k ∈ seqs, lastSent < k) (hmax : ∀ k ∈ seqs, k ≤ maxValue)
    {gaps : List Range} (wf : WellFormed gaps) :
    ∃ after, durabilityGaps lastSent seqs gaps = .ok after ∧ WellFormed after ∧
      ∀ n, Covers after n ↔ Covers gaps n ∨ (lastSent < n ∧ (∃ k ∈ seqs, n < k) ∧ n ∉ seqs) := by
  induction seqs generalizing lastSent gaps with
  | nil => exact ⟨gaps, rfl, wf, fun n => by simp⟩
  | cons seq rest ih =>
    obtain ⟨hlater, hrest⟩ := List.pairwise_cons.mp hs
    have hseq := hafter seq (by simp)
    have hbound := hmax seq (by simp)
    -- What lies behind this sample is left to the rest of the loop.
    have hbehind : ∀ n, (lastSent < n ∧ (∃ k ∈ seq :: rest, n < k) ∧ n ∉ seq :: rest) ↔
        (lastSent < n ∧ n < seq) ∨ (seq < n ∧ (∃ k ∈ rest, n < k) ∧ n ∉ rest) := by
      intro n
      constructor
      · rintro ⟨hlo, ⟨k, hk, hlt⟩, hn⟩
        rw [List.mem_cons, not_or] at hn
        by_cases hbefore : n < seq
        · exact .inl ⟨hlo, hbefore⟩
        · refine .inr ⟨by omega, ⟨k, ?_, hlt⟩, hn.2⟩
          rcases List.mem_cons.mp hk with rfl | hk
          · omega
          · exact hk
      · rintro (⟨hlo, hhi⟩ | ⟨hlo, ⟨k, hk, hlt⟩, hn⟩)
        · refine ⟨hlo, ⟨seq, by simp, hhi⟩, fun hmem => ?_⟩
          rcases List.mem_cons.mp hmem with rfl | hmem
          · omega
          · have := hlater n hmem
            omega
        · refine ⟨by omega, ⟨k, by simp [hk], hlt⟩, fun hmem => ?_⟩
          rcases List.mem_cons.mp hmem with rfl | hmem
          · omega
          · exact hn hmem
    unfold durabilityGaps
    split
    · have hprevious : previous seq = seq - 1 := previous_of_ne (by omega)
      have hfirst : ofValue (lastSent + 1) = lastSent + 1 := ofValue_of_pos (by omega)
      obtain ⟨grew, seqs', heq, hwf, hcov⟩ := insertI_spec (lastSent + 1, seq - 1) wf
        (by simp only; omega) (by simp only; omega) (by simp only; omega) fun hclash => by
          have hlast : seq - 1 = maxValue := hclash.1
          omega
      obtain ⟨after, hafter', hwf', hcov'⟩ := ih hrest seq (by omega) hlater
        (fun k hk => hmax k (by simp [hk])) hwf
      rw [hfirst, hprevious, heq]
      refine ⟨after, hafter', hwf', fun n => ?_⟩
      rw [hcov', hcov, hbehind, or_assoc]
      constructor
      · rintro (h | h | h)
        · exact .inl h
        · exact .inr (.inl ⟨by omega, by omega⟩)
        · exact .inr (.inr h)
      · rintro (h | h | h)
        · exact .inl h
        · exact .inr (.inl ⟨by omega, by omega⟩)
        · exact .inr (.inr h)
    · obtain ⟨after, hafter', hwf', hcov'⟩ := ih hrest seq (by omega) hlater
        (fun k hk => hmax k (by simp [hk])) wf
      refine ⟨after, hafter', hwf', fun n => ?_⟩
      rw [hcov', hbehind]
      refine or_congr_right (or_iff_right ?_).symm
      rintro ⟨hlo, hhi⟩
      omega

/-- The reply to a set of requests that has everything requested is right exactly if what is asked
for can be answered. -/
theorem answerRequests_iff (wf : WellFormed requests) (hpos : ∀ n, Covers requests n → 1 ≤ n)
    (hs : keys.Pairwise (· < ·)) (hmax : ∀ k ∈ keys, k ≤ maxValue) {Requested : Int → Prop}
    (hasked : ∀ n, Requested n → Covers requests n) :
    (∃ reply, answerRequests keys requests = .ok reply ∧ Answers keys Requested reply) ↔
      Answerable keys Requested (Covers requests) := by
  have hmem : ∀ k, k ∈ (keys.filter fun seq => contains requests seq) ↔ k ∈ keys ∧ Covers requests k := by
    intro k
    rw [List.mem_filter, contains_iff wf.canonical]
  have hsorted := hs.filter fun seq => contains requests seq
  rw [answerRequests_eq wf.canonical hs]
  generalize (keys.filter fun seq => contains requests seq) = resent at hmem hsorted ⊢
  by_cases hnone : resent = []
  · -- Nothing that is asked for is stored.
    subst hnone
    have hmiss : ∀ k ∈ keys, ¬ Covers requests k := fun k hk hc => by
      have := (hmem k).mpr ⟨hk, hc⟩
      cases this
    refine iff_of_true ?_ fun ⟨m, hm, hc⟩ => absurd hc (hmiss m hm)
    have hresent : ∀ n ∈ keys, Requested n → ([] : List Int).count n = 1 := fun n hn hr =>
      absurd (hasked n hr) (hmiss n hn)
    simp only [durabilityGaps, Except.map, List.isEmpty_nil, Bool.true_and]
    split
    · refine ⟨_, rfl, hresent, fun n hc hn => hmiss n hn hc, fun _ n hr _ _ => hasked n hr⟩
    · refine ⟨_, rfl, hresent, fun n hc => absurd hc (covers_nil n), fun h => ?_⟩
      rcases h with h | h
      · exact absurd rfl h
      · exact absurd rfl h
  · obtain ⟨m, hm⟩ := List.exists_mem_of_ne_nil _ hnone
    obtain ⟨hmkey, hmcov⟩ := (hmem m).mp hm
    have hlow := hpos _ (covers_low wf.canonical (ne_nil_of_covers hmcov))
    have hfrom : ∀ k ∈ resent, low requests - 1 < k := by
      intro k hk
      have := low_le wf.canonical ((hmem k).mp hk).2
      omega
    obtain ⟨gaps, hgaps, -, hcov⟩ := durabilityGaps_spec hsorted (low requests - 1) (by omega) hfrom
      (fun k hk => hmax k ((hmem k).mp hk).1) wellFormed_nil
    have hisEmpty : resent.isEmpty = false := by simpa using hnone
    rw [hgaps]
    simp only [Except.map, hisEmpty, Bool.and_false, Bool.false_and, Bool.false_eq_true, if_false,
      Except.ok.injEq]
    have hgap : ∀ n, Covers gaps n ↔ low requests ≤ n ∧ (∃ k ∈ resent, n < k) ∧ n ∉ resent := by
      intro n
      rw [hcov]
      simp only [covers_nil, false_or]
      refine and_congr_left fun _ => ?_
      omega
    constructor
    · rintro ⟨reply, rfl, hanswers⟩ -
      constructor
      · intro q hq m' hm' hcm' k hk hqk hkm
        -- A stored sample that is not asked for would be announced.
        by_contra hk'
        refine hanswers.spared k ((hgap k).mpr ⟨?_, ⟨m', (hmem m').mpr ⟨hm', hcm'⟩, ?_⟩, ?_⟩) hk
        · exact (low_le wf.canonical hq).trans hqk
        · exact lt_of_le_of_ne hkm fun heq => hk' (heq ▸ hcm')
        · exact fun hin => hk' ((hmem k).mp hin).2
      · intro n hn hnkey hbelow
        obtain ⟨-, ⟨k, hk, hlt⟩, -⟩ := (hgap n).mp (hanswers.announced (.inl hnone) n hn hnkey hbelow)
        exact ⟨k, ((hmem k).mp hk).1, ((hmem k).mp hk).2, hlt⟩
    · intro hcond
      obtain ⟨hbetween, hanswered⟩ := hcond ⟨m, hmkey, hmcov⟩
      refine ⟨_, rfl, fun n hn hr => ?_, fun n hc hn => ?_, fun _ n hr hn hbelow => ?_⟩
      · exact List.count_eq_one_of_mem (hsorted.imp ne_of_lt) ((hmem n).mpr ⟨hn, hasked n hr⟩)
      · obtain ⟨hlo, ⟨k, hk, hlt⟩, hnot⟩ := (hgap n).mp hc
        obtain ⟨hkkey, hkcov⟩ := (hmem k).mp hk
        exact hnot ((hmem n).mpr ⟨hn, hbetween (low requests)
          (covers_low wf.canonical (ne_nil_of_covers hkcov)) k hkkey hkcov n hn hlo hlt.le⟩)
      · obtain ⟨k, hk, hkcov, hlt⟩ := hanswered n hr hn hbelow
        exact (hgap n).mpr ⟨low_le wf.canonical (hasked n hr), ⟨k, (hmem k).mpr ⟨hk, hkcov⟩, hlt⟩,
          fun hin => hn ((hmem n).mp hin).1⟩

end

/-- The numbers requested by an ACKNACK, and those its bitmap is decoded to. -/
def requested (sn : SequenceNumberSet) (n : Int) : Prop :=
  ∃ k : Nat, k < sn.numBits ∧ n = sn.bitmapBase.value + k ∧ bitSet sn.bitmap k = true

def decoded (sn : SequenceNumberSet) (n : Int) : Prop :=
  Adds [] sn.bitmapBase.value sn.numBits sn.bitmap n

theorem requests_decoded (sn : SequenceNumberSet) (hlast : sn.bitmapBase.value + sn.numBits ≤ maxValue) :
    ∃ grew after, insertBits (sn.numBits + 1) [] sn.bitmapBase.value sn.numBits sn.bitmap =
        .ok (grew, after) ∧ WellFormed after ∧ (∀ n, Covers after n ↔ decoded sn n) ∧
      (grew = true ↔ ∃ n, decoded sn n) := by
  have hpos := sn.bitmapBase.value_pos
  have hbits := sn.numBits_le
  have hb : ScanBounds [] sn.bitmapBase.value sn.numBits :=
    ⟨hpos, fun _ h => absurd h (covers_nil 0), hlast, by omega⟩
  have hbound : Bounded [] sn.bitmapBase.value sn.numBits sn.bitmap := fun p c _ hc _ =>
    ⟨sn.bitmapBase.value + c, le_rfl, by omega, covers_nil _⟩
  obtain ⟨grew, after, heq, hcov, hgrew⟩ := insertBits_exact wellFormed_nil hb hbound (by omega)
  have hwf := (insertBits_spec wellFormed_nil hb (by omega) (fun n h => absurd h (covers_nil n)) heq).1
  simp only [covers_nil, false_or, not_false_eq_true, and_true] at hcov hgrew
  refine ⟨grew, after, heq, hwf, hcov, hgrew.trans (exists_congr hcov)⟩

/-- An ACKNACK whose base does not lie above the durable data is answered rightly exactly if what
its bitmap is decoded to can be. -/
theorem durable_reply_iff (w : Writer) (ri : ReaderInfo) (acknack : AckNackSubmessage)
    (hs : ri.durableData.Pairwise (· < ·)) (hmax : ∀ k ∈ ri.durableData, k ≤ maxValue)
    (hlast : acknack.readerSNState.bitmapBase.value + acknack.readerSNState.numBits ≤ maxValue) :
    (∃ reply, answerDurable (acknack.readerSNState.numBits + 1) w ri acknack = .ok reply ∧
        Answers ri.durableData (requested acknack.readerSNState) reply) ↔
      Answerable ri.durableData (requested acknack.readerSNState) (decoded acknack.readerSNState) := by
  obtain ⟨grew, after, heq, hwf, hcov, hgrew⟩ := requests_decoded acknack.readerSNState hlast
  have hbase := acknack.readerSNState.bitmapBase.value_pos
  have hrequested : ∀ n, requested acknack.readerSNState n → decoded acknack.readerSNState n := by
    rintro n ⟨k, hk, hn, hset⟩
    exact ⟨k, hk, hn, .inl hset⟩
  unfold answerDurable
  simp only [heq]
  by_cases hsame : (!grew && !acknack.final && decide (acknack.readerSNState.bitmapBase.value =
      heartbeatHigh w ri) && ri.durableData.contains acknack.readerSNState.bitmapBase.value) = true
  · -- No bit is set, and the base itself is resent.
    rw [if_pos hsame]
    simp only [Bool.and_eq_true, Bool.not_eq_true', decide_eq_true_eq] at hsame
    have hnone : ∀ n, ¬ decoded acknack.readerSNState n := fun n hn => by
      have := hgrew.mpr ⟨n, hn⟩
      rw [hsame.1.1.1] at this
      cases this
    generalize acknack.readerSNState.bitmapBase.value = base at hbase hlast
    have hsingle : ∀ n, Covers [(base, base)] n ↔ n = base := by
      simp only [covers_cons, covers_nil, or_false]
      omega
    have hwf' : WellFormed [(base, base)] :=
      ⟨canonical_cons.mpr ⟨le_rfl, by simp, canonical_nil⟩, by simp [Within]; omega⟩
    rw [answerRequests_iff hwf' (fun n hn => (hsingle n).mp hn ▸ hbase) hs hmax
      fun n hn => absurd (hrequested n hn) (hnone n)]
    refine iff_of_true (fun _ => ⟨fun q hq m _ hm k _ hqk hkm => ?_, fun n hn => ?_⟩)
      fun hany => hany.elim fun m hm => absurd hm.2 (hnone m)
    · rw [hsingle] at hq hm ⊢
      omega
    · exact absurd (hrequested n hn) (hnone n)
  · have hpos : ∀ n, Covers after n → 1 ≤ n := fun n hn => by
      obtain ⟨k, -, rfl, -⟩ := (hcov n).mp hn
      omega
    rw [if_neg hsame, answerRequests_iff hwf hpos hs hmax fun n hn => (hcov n).mpr (hrequested n hn)]
    simp only [Answerable, hcov]

section

/-- A reader for which the samples 1, 3 and 5 are kept, and one that asks for 1 and 5, or for
everything from 1 to 5. -/
def lateReader : ReaderInfo :=
  { ReaderInfo.associated 1 true true with durableData := [1, 3, 5], durableResent := true }

def asking (word : BitVec 32) : AckNackSubmessage where
  readerId := 1
  final := false
  readerSNState := ⟨⟨0, 1⟩, 5, fun i => if i = 0 then word else 0, by decide⟩
  count := 1

def lateWriter : Writer := ⟨[lateReader], none, 6, 0, true⟩

theorem durable_reply_all : ∃ reply, answerDurable 6 lateWriter lateReader (asking 0xf8000000#32) =
    .ok reply ∧ Answers [1, 3, 5] (requested (asking 0xf8000000#32).readerSNState) reply := by
  have hasked : ∀ k ∈ [1, 3, 5], decoded (asking 0xf8000000#32).readerSNState k := by
    intro k hk
    simp only [List.mem_cons, List.not_mem_nil, or_false] at hk
    obtain rfl | rfl | rfl := hk
    · exact ⟨0, by decide, by decide, .inl (by decide)⟩
    · exact ⟨2, by decide, by decide, .inl (by decide)⟩
    · exact ⟨4, by decide, by decide, .inl (by decide)⟩
  refine (durable_reply_iff lateWriter lateReader (asking 0xf8000000#32) (by decide) (by decide)
    (by decide)).mpr fun _ => ⟨fun _ _ _ _ _ k hk _ _ => hasked k hk, ?_⟩
  have hle : ∀ k ∈ lateReader.durableData, k ≤ 5 := by decide
  rintro n - - ⟨k, hk, hlt⟩
  exact ⟨5, by decide, hasked 5 (by decide), lt_of_lt_of_le hlt (hle k hk)⟩

/-- With 1 and 5 resent, 3 is announced as irrelevant. -/
theorem durable_sample_announced : ¬ ∀ (w : Writer) (ri : ReaderInfo) (acknack : AckNackSubmessage),
    ri.durableData.Pairwise (· < ·) → (∀ k ∈ ri.durableData, k ≤ maxValue) →
    acknack.readerSNState.bitmapBase.value ≤ ri.durableData.getLast?.getD 0 →
    ∃ reply, answerDurable (acknack.readerSNState.numBits + 1) w ri acknack = .ok reply ∧
      Answers ri.durableData (requested acknack.readerSNState) reply := by
  intro hall
  obtain ⟨reply, heq, hanswers⟩ := hall lateWriter lateReader (asking 0x88000000#32)
    (by decide) (by decide) (by decide)
  have hreply : answerDurable 6 lateWriter lateReader (asking 0x88000000#32) =
      .ok ⟨[1, 5], [(2, 4)]⟩ := by rfl
  cases hreply.symm.trans heq
  exact hanswers.spared 3 (by simp) (by decide)

end

end OpenDDS.Guarantees.DurableRequests
