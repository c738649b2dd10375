import OpenDDS.Library.Folds
import OpenDDS.Source.NackBitmap

/-!
# What an ACKNACK requests

The bitmap of an ACKNACK is to request what is missing between the base and the end of the
heartbeat range, or of what was received. Two of the fills that make it up are one number too
long: the one for a reader that was up to date ends at the lowest number received, and the one
behind a set with gaps starts at the highest. In a set with gaps the memory of the bitmap may
show through as well.
-/
namespace OpenDDS.Guarantees.NackRequests
open Library Library.RangeList Source Source.SequenceNumber Source.DisjointSequence
open Source.RtpsMessages Source.RtpsReader

variable {α : Type} {durable : Bool} {info : WriterInfo α} {fragKeys : List Int} {memory : Bitmap}

section

/-- A writer's state behind a heartbeat whose range ends less than 2^32 above the base. -/
structure Heard (info : WriterInfo α) : Prop where
  wellFormed : WellFormed info.recvd
  first : 1 ≤ info.hbRange.1
  ascending : info.hbRange.1 ≤ info.hbRange.2
  last : info.hbRange.2 ≤ maxValue
  near : info.recvd ≠ [] → info.hbRange.2 - cumulativeAck info.recvd < 2 ^ 32
  span : info.recvd = [] → info.hbRange.2 - info.hbRange.1 < 2 ^ 32

def Missing (recvd : List Range) (hbRange : Range) (n : Int) : Prop :=
  ¬ Covers recvd n ∧ n ≤ max hbRange.2 (high recvd)

/-- An ACKNACK requests exactly the missing numbers that no fragment is held of. -/
structure Requests (recvd : List Range) (hbRange : Range) (fragKeys : List Int)
    (acknack : AckNackSubmessage) : Prop where
  bound : acknack.numBits ≤ 256
  bits : ∀ i < acknack.numBits, (bitSet acknack.bitmap i = true ↔
    Missing recvd hbRange (acknack.bitmapBase + i) ∧ acknack.bitmapBase + i ∉ fragKeys)
  covered : ∀ t : Nat, ¬ Covers recvd (acknack.bitmapBase + t) →
    acknack.bitmapBase + t ≤ hbRange.2 → t < 256 → t < acknack.numBits

/-- No cast to `CORBA::ULong` cuts off a number of longs, or an offset before the bitmap is full
(if a range starts out of its reach, one starts within it and behind the bitmap), and the base is
not so large that 255 cannot be added to it. -/
structure Casts (durable : Bool) (info : WriterInfo α) : Prop where
  below : Backfills durable info → info.hbRange.1 + 255 < low info.recvd →
    bitmapNumLongs info.hbRange.1 (low info.recvd) = 8
  words : ¬ Backfills durable info → cumulativeAck info.recvd + 256 < lastAck info.recvd - 1 →
    bitmapNumLongs (cumulativeAck info.recvd + 1) (lastAck info.recvd - 1) = 8
  offsets : ¬ Backfills durable info → ∀ r ∈ info.recvd,
    cumulativeAck info.recvd + 1 + 2 ^ 32 < r.1 → ∃ q ∈ info.recvd,
      cumulativeAck info.recvd + 257 < q.1 ∧ q.1 ≤ cumulativeAck info.recvd + 1 + 2 ^ 32
  lowSum : info.recvd = [] ∨ Backfills durable info → info.hbRange.1 + 255 ≤ maxValue
  ackSum : info.recvd ≠ [] → high info.recvd < info.hbRange.2 →
    cumulativeAck info.recvd + 1 + 255 ≤ maxValue

/-- When the bitmap is right: the lowest and the highest number received are out of its reach
where a fill takes them in, or fragments of them are held; no ones show through; and the set is
not the largest number alone, behind which the base wraps. -/
structure Exact (durable : Bool) (info : WriterInfo α) (fragKeys : List Int) (memory : Bitmap) :
    Prop where
  lowest : Backfills durable info → low info.recvd ≤ info.hbRange.1 + 255 →
    low info.recvd ∈ fragKeys
  highest : disjoint info.recvd = true → high info.recvd < info.hbRange.2 →
    high info.recvd ≤ cumulativeAck info.recvd + 256 → high info.recvd ∈ fragKeys
  memory : ¬ Backfills durable info → disjoint info.recvd = true →
    ∀ i, Exposed (Marked info.recvd (cumulativeAck info.recvd + 1) info.hbRange.2) i →
      (∃ t, Marked info.recvd (cumulativeAck info.recvd + 1) info.hbRange.2 t ∧ i < t) →
      cumulativeAck info.recvd + 1 + i ∉ fragKeys → bitSet memory i = false
  wraps : ¬ Backfills durable info → low info.recvd = maxValue → 1 ∈ fragKeys ∧ info.hbRange.2 ≤ 1

end

section

variable {T : Nat → Prop} {s : NackState} {acknack : AckNackSubmessage} {recvd : List Range}
  {hbRange : Range}

/-- A bitmap that marks the missing numbers, and some others `Again`, is right if and only if
fragments of the others are held and no ones show through. -/
theorem requests_iff (Again : Nat → Prop) (hmarks : Marks memory T s) (hnum : acknack.numBits = s.numBits)
    (hpos : 1 ≤ acknack.bitmapBase)
    (hbits : ∀ k < acknack.numBits, bitSet acknack.bitmap k =
      (bitSet s.bitmap k && !fragKeys.contains (ofValue (acknack.bitmapBase + k))))
    (hmarked : ∀ i < s.numBits, (T i ↔ Missing recvd hbRange (acknack.bitmapBase + i) ∨ Again i))
    (hagain : ∀ i, Again i → T i ∧ ¬ Missing recvd hbRange (acknack.bitmapBase + i))
    (hcovered : ∀ t : Nat, ¬ Covers recvd (acknack.bitmapBase + t) →
      acknack.bitmapBase + t ≤ hbRange.2 → t < 256 → t < s.numBits) :
    Requests recvd hbRange fragKeys acknack ↔
      (∀ i : Nat, Again i → acknack.bitmapBase + i ∈ fragKeys) ∧
      ∀ i : Nat, Exposed T i → (∃ t, T t ∧ i < t) → acknack.bitmapBase + i ∉ fragKeys →
        bitSet memory i = false := by
  have hset : ∀ i < s.numBits, (bitSet acknack.bitmap i = true ↔
      (T i ∨ (Exposed T i ∧ bitSet memory i = true)) ∧ acknack.bitmapBase + i ∉ fragKeys) := by
    intro i hi
    rw [hbits i (hnum ▸ hi), ofValue_of_pos (by omega), Bool.and_eq_true, hmarks.bits i hi]
    simp
  constructor
  · intro h
    have hrequests : ∀ i < s.numBits,
        (T i ∨ (Exposed T i ∧ bitSet memory i = true)) → acknack.bitmapBase + i ∉ fragKeys →
          Missing recvd hbRange (acknack.bitmapBase + i) := fun i hi hraw hfrag =>
      ((h.bits i (hnum ▸ hi)).mp ((hset i hi).mpr ⟨hraw, hfrag⟩)).1
    constructor
    · intro i hi
      obtain ⟨hT, hmiss⟩ := hagain i hi
      by_contra hfrag
      exact hmiss (hrequests i (hmarks.counted i hT) (.inl hT) hfrag)
    · rintro i hexp ⟨t, ht, hit⟩ hfrag
      have hi : i < s.numBits := hit.trans (hmarks.counted t ht)
      by_contra hone
      have hmiss := hrequests i hi (.inr ⟨hexp, by simpa using hone⟩) hfrag
      exact absurd (hexp.2.2 i ((hmarked i hi).mpr (.inl hmiss)) rfl) (lt_irrefl i)
  · rintro ⟨hheld, hclean⟩
    refine ⟨hnum ▸ hmarks.bound, fun i hi => ?_, fun t hmiss hle hlt => ?_⟩
    · have hi : i < s.numBits := hnum ▸ hi
      rw [hset i hi]
      refine and_congr_left fun hfrag => ⟨?_, fun hmiss => .inl ((hmarked i hi).mpr (.inl hmiss))⟩
      rintro (hT | ⟨hexp, hone⟩)
      · rcases (hmarked i hi).mp hT with hmiss | hi'
        · exact hmiss
        · exact absurd (hheld i hi') hfrag
      · rw [hclean i hexp (hmarks.reach i hi hexp) hfrag] at hone
        cases hone
    · rw [hnum]
      exact hcovered t hmiss hle hlt

theorem requests_of_run (hmarks : Marks memory T s) (hrun : ∀ t, T t → ∀ k ≤ t, T k)
    (hnum : acknack.numBits = s.numBits) (hpos : 1 ≤ acknack.bitmapBase)
    (hbits : ∀ k < acknack.numBits, bitSet acknack.bitmap k =
      (bitSet s.bitmap k && !fragKeys.contains (ofValue (acknack.bitmapBase + k))))
    (hmarked : ∀ i < s.numBits, (T i ↔ Missing recvd hbRange (acknack.bitmapBase + i)))
    (hcovered : ∀ t : Nat, ¬ Covers recvd (acknack.bitmapBase + t) →
      acknack.bitmapBase + t ≤ hbRange.2 → t < 256 → t < s.numBits) :
    Requests recvd hbRange fragKeys acknack :=
  (requests_iff (fun _ => False) hmarks hnum hpos hbits
    (fun i hi => (hmarked i hi).trans (or_false _).symm.to_iff) (fun _ h => h.elim) hcovered).mpr
    ⟨fun _ h => h.elim, fun i hexp => absurd hexp (not_exposed_of_run hrun i)⟩

end

section

variable {acknack : AckNackSubmessage} {recvd : List Range} {start : NackState}

def Sends (info : WriterInfo α) (fragKeys : List Int) (recvd : List Range) (start : NackState)
    (acknack : AckNackSubmessage) : Prop :=
  acknack.bitmapBase = start.ack ∧
  acknack.numBits = (nackTail recvd info.hbRange.2 start).numBits ∧
  ∀ k < acknack.numBits, bitSet acknack.bitmap k =
    (bitSet (nackTail recvd info.hbRange.2 start).bitmap k &&
      !fragKeys.contains (ofValue (start.ack + k)))

theorem requests_empty (h : Heard info) (hnil : info.recvd = []) (hcasts : Casts durable info)
    (hsends : Sends info fragKeys []
      (nackUpTo info.hbRange.1 info.hbRange.2 (setWord memory 0 0)) acknack) :
    Requests [] info.hbRange fragKeys acknack := by
  obtain ⟨hbase, hnum, hbits⟩ := hsends
  have hbase : acknack.bitmapBase = info.hbRange.1 := hbase
  have hspan := h.span hnil
  have hfirst := h.first
  obtain ⟨hmarks, hlast⟩ := @nackUpTo_marks memory _ _ hfirst
    (hcasts.lowSum (.inl hnil)) h.ascending
    (fun hfar => bitmapNumLongs_eq hfar hspan) memory
  refine requests_of_run hmarks ?_ hnum (by omega) (hbase ▸ hbits) (fun i hi => ?_)
    fun t _ hle hlt => hmarks.counted t ⟨by omega, hlt⟩
  · rintro t ⟨ht, hlt⟩ k hk
    exact ⟨by omega, by omega⟩
  · have hi' := hlast i hi
    have := hmarks.bound
    refine iff_of_true ⟨hi', by omega⟩ ⟨by simp, ?_⟩
    omega

theorem le_cumulativeAck_of_shouldNack (hne : info.recvd ≠ []) (h : shouldNack info = false) :
    info.hbRange.2 ≤ cumulativeAck info.recvd ∧ info.hbRange.2 ≤ high info.recvd := by
  have hemp : empty info.recvd = false := by simpa [empty] using hne
  unfold shouldNack at h
  split at h
  · cases h
  · rename_i hgap
    simp only [hemp, Bool.not_false, if_true, decide_eq_false_iff_not, not_lt] at h
    refine ⟨?_, h⟩
    cases hd : disjoint info.recvd with
    | false =>
      rw [eq_singleton_of_not_disjoint hne hd] at h
      exact h
    | true =>
      by_contra hlt
      exact hgap ⟨hd, by omega⟩

theorem requests_backfill (h : Heard info) (hback : Backfills durable info)
    (hcasts : Casts durable info) (hsends : Sends info fragKeys info.recvd
      (nackUpTo info.hbRange.1 (low info.recvd) (setWord memory 0 0)) acknack) :
    Requests info.recvd info.hbRange fragKeys acknack ↔ Exact durable info fragKeys memory := by
  obtain ⟨hbase, hnum, hbits⟩ := hsends
  have hbase : acknack.bitmapBase = info.hbRange.1 := hbase
  have ⟨_, hnack, hne, hlow⟩ := hback
  have hfirst := h.first
  have hcanonical := h.wellFormed.canonical
  have hlowcov := covers_low hcanonical hne
  have hlowhigh := le_high hcanonical hlowcov
  obtain ⟨hend, hhigh⟩ := le_cumulativeAck_of_shouldNack hne hnack
  obtain ⟨hmarks, hlast⟩ := @nackUpTo_marks memory _ _ hfirst
    (hcasts.lowSum (.inr hback)) hlow.le (hcasts.below hback) memory
  rw [nackTail_none fun _ => hhigh] at hnum hbits
  have hrun : ∀ t : Nat, (info.hbRange.1 + t ≤ low info.recvd ∧ t < 256) → ∀ k ≤ t,
      info.hbRange.1 + k ≤ low info.recvd ∧ k < 256 := by
    rintro t ⟨ht, hlt⟩ k hk
    exact ⟨by omega, by omega⟩
  rw [requests_iff (fun i => info.hbRange.1 + i = low info.recvd ∧ i < 256) hmarks hnum (by omega)
    (hbase ▸ hbits) (fun i hi => ?_) (fun i hi => ?_) fun t hmiss hle hlt => ?_]
  · rw [hbase]
    constructor
    · rintro ⟨hheld, -⟩
      refine ⟨fun _ hle => ?_, fun _ hgo => by omega, fun hno => absurd hback hno,
        fun hno => absurd hback hno⟩
      have := hheld (low info.recvd - info.hbRange.1).toNat ⟨by omega, by omega⟩
      rwa [show info.hbRange.1 + ((low info.recvd - info.hbRange.1).toNat : Int) = low info.recvd by
        omega] at this
    · intro hexact
      refine ⟨?_, fun i hexp => absurd hexp (not_exposed_of_run hrun i)⟩
      rintro i ⟨hi, hlt⟩
      rw [hi]
      exact hexact.lowest hback (by omega)
  · have hi' := hlast i hi
    have hbound := hmarks.bound
    refine iff_of_true ⟨hi', by omega⟩ ?_
    by_cases hsame : info.hbRange.1 + i = low info.recvd
    · exact .inr ⟨hsame, by omega⟩
    · refine .inl ⟨fun hcov => ?_, by omega⟩
      have := low_le hcanonical hcov
      omega
  · obtain ⟨hsame, hlt⟩ := hi
    refine ⟨⟨by omega, hlt⟩, fun hmiss => hmiss.1 ?_⟩
    rw [hbase, hsame]
    exact hlowcov
  · refine hmarks.counted t ⟨?_, hlt⟩
    by_contra hgt
    exact hmiss (covers_of_le_cumulativeAck hne (by omega) (by omega))

theorem requests_single (h : Heard info) (hne : info.recvd ≠ []) (hd : disjoint info.recvd = false)
    (hcasts : Casts durable info) (hl : Lowered info.recvd recvd)
    (hsends : Sends info fragKeys recvd ⟨cumulativeAck info.recvd + 1, 1, setWord memory 0 0, 1⟩
      acknack) :
    Requests recvd info.hbRange fragKeys acknack := by
  obtain ⟨hbase, hnum, hbits⟩ := hsends
  have hbase : acknack.bitmapBase = cumulativeAck info.recvd + 1 := hbase
  have hlow := low_le_cumulativeAck h.wellFormed.canonical hne
  have hpos := low_nonneg h.wellFormed
  have hhigh : high recvd = cumulativeAck info.recvd := by
    rw [hl.highest, eq_singleton_of_not_disjoint hne hd]
    rfl
  have hmissing : ∀ i : Nat, ¬ Covers recvd (acknack.bitmapBase + i) := by
    intro i hcov
    have := le_high hl.wellFormed.canonical hcov
    omega
  by_cases htail : high recvd < info.hbRange.2
  · have hmarks := @nackTail_run memory recvd info.hbRange.2 (cumulativeAck info.recvd + 1)
      hl.nonempty (hl.gaps.trans hd) htail (by omega)
      (hcasts.ackSum hne (by rwa [hl.highest] at htail)) (by omega) memory
    refine requests_of_run hmarks ?_ hnum (by omega) (hbase ▸ hbits) (fun i hi => ?_)
      fun t _ hle hlt => hmarks.counted t ⟨by omega, hlt⟩
    · rintro t ⟨ht, hlt⟩ k hk
      exact ⟨by omega, by omega⟩
    · have hbound := hmarks.bound
      constructor
      · rintro ⟨ht, -⟩
        exact ⟨hmissing i, by omega⟩
      · rintro ⟨-, hle⟩
        exact ⟨by omega, by omega⟩
  · rw [nackTail_none fun _ => by omega] at hnum hbits
    have hmarks : Marks memory (fun _ => False)
        ⟨cumulativeAck info.recvd + 1, 1, setWord memory 0 0, 1⟩ := by
      refine marks_of_run (fun _ h => h.elim) (show 1 ≤ 256 by decide) (fun i hi => ?_) (fun _ h => h.elim)
      obtain rfl : i = 0 := by
        have : i < 1 := hi
        omega
      simp [bitSet, setWord]
    refine requests_of_run hmarks (fun _ h => h.elim) hnum (by omega) (hbase ▸ hbits)
      (fun i hi => ?_) fun t _ hle _ => by omega
    refine iff_of_false id ?_
    rintro ⟨-, hle⟩
    omega

/-- Behind the largest number the base is 1 again, and one bit that is not set is sent. -/
theorem requests_wrapped (h : Heard info) (hne : info.recvd ≠ []) (hback : ¬ Backfills durable info)
    (hmax : cumulativeAck info.recvd = maxValue)
    (hsends : Sends info fragKeys (bridged info.recvd) ⟨1, 1, setWord memory 0 0, 1⟩ acknack) :
    Requests (bridged info.recvd) info.hbRange fragKeys acknack ↔
      Exact durable info fragKeys memory := by
  obtain ⟨hbase, hnum, hbits⟩ := hsends
  have hbase : acknack.bitmapBase = 1 := hbase
  have hl := bridged_lowered h.wellFormed hne
  have hcanonical := h.wellFormed.canonical
  have hlow := low_le_cumulativeAck hcanonical hne
  have hack := le_high hcanonical (covers_of_le_cumulativeAck hne hlow le_rfl)
  have hlast := h.last
  have hone : (1 : Int) < maxValue := by decide
  have hd : disjoint info.recvd = false := by
    by_contra hd
    have := cumulativeAck_lt_high h.wellFormed (by simpa using hd)
    have := high_le h.wellFormed hne
    omega
  rw [nackTail_none fun _ => by rw [hl.highest]; omega] at hnum hbits
  have hnum : acknack.numBits = 1 := hnum
  have hclear : ∀ i < acknack.numBits, i = 0 ∧ bitSet acknack.bitmap i = false := by
    intro i hi
    obtain rfl : i = 0 := by omega
    refine ⟨rfl, ?_⟩
    rw [hbits 0 hi]
    simp [bitSet, setWord]
  by_cases hlowmax : low info.recvd = maxValue
  · -- Nothing but the largest number was received.
    have hsame : bridged info.recvd = info.recvd := by
      unfold bridged
      rw [if_neg (by omega)]
    have hmissing : ∀ n < maxValue, ¬ Covers (bridged info.recvd) n := by
      intro n hn hcov
      rw [hsame] at hcov
      have := low_le hcanonical hcov
      omega
    constructor
    · intro hrequests
      refine ⟨fun hb => absurd hb hback, fun hgap => ?_, fun _ hgap => ?_, fun _ _ => ⟨?_, ?_⟩⟩
      · rw [hd] at hgap
        cases hgap
      · rw [hd] at hgap
        cases hgap
      · by_contra hfrag
        have hbit := (hrequests.bits 0 (by omega)).mpr
        rw [hbase] at hbit
        have hset := hbit ⟨⟨hmissing _ (by simpa using hone), ?_⟩, by simpa using hfrag⟩
        · rw [(hclear 0 (by omega)).2] at hset
          cases hset
        · rw [hl.highest]
          omega
      · by_contra hgt
        have htwo : (2 : Int) < maxValue := by decide
        have hcounted := hrequests.covered 1
        rw [hbase, hnum] at hcounted
        have := hcounted (hmissing _ (by simpa using htwo)) (by simp only [Nat.cast_one]; omega) (by omega)
        omega
    · intro hexact
      obtain ⟨hfrag, hend⟩ := hexact.wraps hback hlowmax
      refine ⟨by omega, fun i hi => ?_, fun t _ hle _ => by omega⟩
      obtain ⟨rfl, hbit⟩ := hclear i hi
      rw [hbit]
      refine iff_of_false (by simp) fun hrequested => hrequested.2 ?_
      rw [hbase]
      simpa using hfrag
  · have hcovers : ∀ n, 1 ≤ n → n ≤ maxValue → Covers (bridged info.recvd) n :=
      fun n hpos hn => hl.closed hlowmax n hpos (by omega)
    refine iff_of_true ⟨by omega, fun i hi => ?_, fun t hmiss hle _ => ?_⟩
      ⟨fun hb => absurd hb hback, fun hgap => ?_, fun _ hgap => ?_, fun _ hlow' => absurd hlow' hlowmax⟩
    · obtain ⟨rfl, hbit⟩ := hclear i hi
      rw [hbit]
      refine iff_of_false (by simp) fun hrequested => hrequested.1.1 ?_
      exact hcovers _ (by omega) (by simp only [hbase, Nat.cast_zero]; omega)
    · exact absurd (hcovers _ (by omega) (by omega)) hmiss
    · rw [hd] at hgap
      cases hgap
    · rw [hd] at hgap
      cases hgap

theorem lt_lastAck {n : Int} (hmiss : ¬ Covers recvd n) (hle : n ≤ high recvd) :
    n < lastAck recvd ∨ recvd = [] := by
  by_cases hne : recvd = []
  · exact .inr hne
  · left
    by_contra hge
    have hlast : lastAck recvd = (recvd.getLast hne).1 := by
      simp [lastAck, List.getLast?_eq_some_getLast hne]
    have hhigh : high recvd = (recvd.getLast hne).2 := by
      simp [high, List.getLast?_eq_some_getLast hne]
    exact hmiss ⟨recvd.getLast hne, List.getLast_mem hne, by omega, by omega⟩

theorem requests_gaps (h : Heard info) (hne : info.recvd ≠ []) (hback : ¬ Backfills durable info)
    (hd : disjoint info.recvd = true) (hcasts : Casts durable info) (hl : Lowered info.recvd recvd)
    {length : Nat} (hlength : length = bitmapNumLongs (cumulativeAck info.recvd + 1)
      (lastAck info.recvd - 1))
    (hsends : Sends info fragKeys recvd
      { ack := cumulativeAck info.recvd + 1, length := length
        bitmap := (toBitmap recvd (setWord memory 0 0) length true).2.1
        numBits := (toBitmap recvd (setWord memory 0 0) length true).2.2 } acknack) :
    Requests recvd info.hbRange fragKeys acknack ↔ Exact durable info fragKeys memory := by
  have hcanonical := h.wellFormed.canonical
  have hlow := low_nonneg h.wellFormed
  have hlowack := low_le_cumulativeAck hcanonical hne
  have hlowmax : low info.recvd ≠ maxValue := by
    have := cumulativeAck_lt_high h.wellFormed hd
    have := high_le h.wellFormed hne
    omega
  have hhighcov := covers_high hl.wellFormed.canonical hl.nonempty
  have hlength8 : length ≤ 8 := hlength ▸ bitmapNumLongs_le _ _
  obtain ⟨ok, bitmap, numBits, heq, hfilled, hlen⟩ := @toBitmap_missing recvd (setWord memory 0 0)
    length hlength8 hl.wellFormed hl.nonempty (by
      rw [hl.ack]
      intro r hr hfar
      obtain ⟨q, hq, hq'⟩ := hcasts.offsets hback r ((hl.ranges r (by omega)).mp hr) hfar
      exact ⟨q, (hl.ranges q (by omega)).mpr hq, hq'⟩)
  rw [heq] at hsends
  obtain ⟨hbase, hnum, hbits⟩ := hsends
  have hbase : acknack.bitmapBase = cumulativeAck info.recvd + 1 := hbase
  have hmarks := @nackTail_gaps memory recvd info.hbRange.2
    ⟨cumulativeAck info.recvd + 1, length, bitmap, numBits⟩ _ hl.wellFormed (hl.gaps.trans hd)
    (by rw [hl.ack]) (by have := h.near hne; simp only; omega)
    (fun htail => hcasts.ackSum hne (by rwa [hl.highest] at htail)) hfilled hlen hlength8 (by
      intro t
      rw [WantedOffset, hl.ack]
      simp only [Wanted, if_true, and_assoc]
      refine and_congr_right fun hmiss => and_congr_right fun hle => ⟨fun hlt => by omega, fun hlt => ?_⟩
      rcases lt_lastAck hmiss hle with hbefore | hnil
      · rw [hl.last hd] at hbefore
        rw [hlength]
        exact lt_bitmapNumLongs (fun hfar => hcasts.words hback (by omega)) (by omega) hlt
      · exact absurd hnil hl.nonempty)
  have hmarked : ∀ t, Marked recvd (cumulativeAck info.recvd + 1) info.hbRange.2 t ↔
      Marked info.recvd (cumulativeAck info.recvd + 1) info.hbRange.2 t := by
    intro t
    unfold Marked
    rw [hl.covers _ (by omega), hl.highest]
  have hmarks := hmarks.congr hmarked
  rw [requests_iff (fun i => i < 256 ∧ high recvd < info.hbRange.2 ∧
      acknack.bitmapBase + i = high recvd) hmarks hnum (by omega) (hbase ▸ hbits) (fun i hi => ?_)
    (fun i hi => ?_) fun t hmiss hle hlt => ?_]
  · rw [hbase, hl.highest]
    constructor
    · rintro ⟨hheld, hclean⟩
      refine ⟨fun hb => absurd hb hback, fun _ htail hle => ?_, fun _ _ => hclean,
        fun _ hmax => absurd hmax hlowmax⟩
      have hgap := cumulativeAck_lt_high h.wellFormed hd
      have := hheld (high info.recvd - (cumulativeAck info.recvd + 1)).toNat
        ⟨by omega, htail, by omega⟩
      rwa [show cumulativeAck info.recvd + 1 +
        ((high info.recvd - (cumulativeAck info.recvd + 1)).toNat : Int) = high info.recvd by
          omega] at this
    · intro hexact
      refine ⟨?_, hexact.memory hback hd⟩
      rintro i ⟨hlt, htail, hsame⟩
      rw [hsame]
      exact hexact.highest hd htail (by omega)
  · have hbound := hmarks.bound
    rw [← hmarked, hbase, Marked, Missing]
    constructor
    · rintro ⟨hlt, hmiss | ⟨htail, hsame⟩⟩
      · exact .inl hmiss
      · exact .inr ⟨hlt, htail, hsame⟩
    · rintro (hmiss | ⟨hlt, hagain⟩)
      · exact ⟨by omega, .inl hmiss⟩
      · exact ⟨hlt, .inr hagain⟩
  · obtain ⟨hlt, htail, hsame⟩ := hi
    rw [← hmarked]
    refine ⟨⟨hlt, .inr ⟨htail, by omega⟩⟩, fun hmiss => hmiss.1 ?_⟩
    rw [hsame]
    exact hhighcov
  · refine hmarks.counted t ((hmarked t).mp ⟨hlt, .inl ⟨hbase ▸ hmiss, by omega⟩⟩)

end

/-- An ACKNACK that the code decides to send requests exactly what is missing if and only if the
state is exact, as long as no cast to `CORBA::ULong` cuts anything off. -/
theorem acknack_requests_missing (h : Heard info)
    (hreplies : (info.ackPending || (shouldNack info || (durable && empty info.recvd))) = true) :
    ∃ acknack after, sendHeartbeatReplies durable info fragKeys memory = .ok (some acknack, after) ∧
      (Casts durable info → (Requests after.recvd info.hbRange fragKeys acknack ↔
        Exact durable info fragKeys memory)) := by
  by_cases hne : info.recvd = []
  · obtain ⟨acknack, after, heq, hrecvd, hsends⟩ := @sendHeartbeatReplies_of_start α durable info
      memory _ fragKeys _ hreplies (nackStart_empty hne)
    refine ⟨acknack, after, heq, fun hcasts => ?_⟩
    rw [hrecvd]
    refine iff_of_true (requests_empty h hne hcasts hsends) ⟨fun hb => absurd hne hb.2.2.1, ?_, ?_, ?_⟩
    all_goals rw [hne]
    · exact nofun
    · exact nofun
    · intro _ hlow
      exact absurd hlow (by decide)
  · by_cases hback : Backfills durable info
    · have hemp : empty info.recvd = false := by simpa [empty] using hne
      have hpending : info.ackPending = true := by
        simpa [hback.2.1, hemp] using hreplies
      obtain ⟨acknack, after, heq, hrecvd, hsends⟩ := @sendHeartbeatReplies_of_start α durable info
        memory _ fragKeys _ hreplies (nackStart_backfill hback hpending)
      refine ⟨acknack, after, heq, fun hcasts => ?_⟩
      rw [hrecvd]
      exact requests_backfill h hback hcasts hsends
    · obtain ⟨acknack, after, heq, hrecvd, hsends⟩ := @sendHeartbeatReplies_of_start α durable info
        memory _ fragKeys _ hreplies (nackStart_bridge h.wellFormed hne hback)
      refine ⟨acknack, after, heq, fun hcasts => ?_⟩
      rw [hrecvd]
      have hl := bridged_lowered h.wellFormed hne
      have hcanonical := h.wellFormed.canonical
      have hlow := low_nonneg h.wellFormed
      have hlowack := low_le_cumulativeAck hcanonical hne
      have hack := le_high hcanonical (covers_of_le_cumulativeAck hne hlowack le_rfl)
      have hmax := high_le h.wellFormed hne
      cases hd : disjoint info.recvd with
      | true =>
        have hgap := cumulativeAck_lt_high h.wellFormed hd
        have hprev : previous (lastAck info.recvd) = lastAck info.recvd - 1 := by
          apply previous_of_ne
          obtain hlt | hnil := lt_lastAck (not_covers_succ_cumulativeAck hcanonical hne) hgap.le
          · omega
          · exact absurd hnil hne
        rw [if_pos (hl.gaps.trans hd), next_of_lt (by omega), hl.last hd, hprev] at hsends
        exact requests_gaps h hne hback hd hcasts hl rfl hsends
      | false =>
        rw [if_neg (by simp [hl.gaps, hd])] at hsends
        by_cases hwrap : cumulativeAck info.recvd = maxValue
        · rw [hwrap, next_maxValue] at hsends
          exact requests_wrapped h hne hback hwrap hsends
        · rw [next_of_lt (by omega)] at hsends
          refine iff_of_true (requests_single h hne hd hcasts hl hsends)
            ⟨fun hb => absurd hb hback, fun hgap => ?_, fun _ hgap => ?_, fun _ hmax' => by omega⟩
          · rw [hd] at hgap
            cases hgap
          · rw [hd] at hgap
            cases hgap

section

/-- A reader that has everything up to 3 and number 6, behind a heartbeat from 1 to `last`. -/
def behind (last : Int) : WriterInfo Nat :=
  { WriterInfo.default with recvd := [(0, 3), (6, 6)], hbRange := (1, last) }

theorem behind_heard {last : Int} (hpos : 1 ≤ last) (hlast : last ≤ 100) : Heard (behind last) := by
  have hack : cumulativeAck (behind last).recvd = 3 := rfl
  have hmax : (100 : Int) ≤ maxValue := by decide
  refine ⟨⟨⟨?_, ?_⟩, ?_⟩, le_rfl, hpos, hlast.trans hmax, fun _ => ?_, nofun⟩
  · show ∀ r ∈ [((0, 3) : Range), (6, 6)], r.1 ≤ r.2
    decide
  · show List.Pairwise _ [((0, 3) : Range), (6, 6)]
    decide
  · show Within 0 maxValue [(0, 3), (6, 6)]
    unfold Within
    decide
  · have hrange : (behind last).hbRange.2 = last := rfl
    omega

/-- With 5 as the end of the range, 4 and 5 are requested, in memory of ones. -/
theorem acknack_requests_missing_behind : ∃ acknack after,
    sendHeartbeatReplies false (behind 5) [] (fun _ => BitVec.allOnes 32) =
      .ok (some acknack, after) ∧ Requests after.recvd (1, 5) [] acknack := by
  have hmarked : ∀ t, Marked (behind 5).recvd (cumulativeAck (behind 5).recvd + 1) 5 t → t < 3 := by
    intro t ht
    have hack : cumulativeAck (behind 5).recvd = 3 := rfl
    have hhigh : high (behind 5).recvd = 6 := rfl
    obtain ⟨-, ⟨-, hle⟩ | ⟨hlt, -⟩⟩ := ht <;> rw [hhigh] at * <;> omega
  obtain ⟨acknack, after, heq, hiff⟩ :=
    @acknack_requests_missing Nat false (behind 5) [] (fun _ => BitVec.allOnes 32)
      (behind_heard (by decide) (by decide)) (by decide)
  refine ⟨acknack, after, heq, (hiff ⟨nofun, fun _ h => ?_, fun _ r hr h => ?_,
    by decide, fun _ _ => by decide⟩).mpr
    ⟨nofun, fun _ h => ?_, fun _ _ i hexp => ?_, fun _ h => ?_⟩⟩
  · exact absurd h (by decide)
  · revert r
    decide
  · exact absurd h (by decide)
  · have hpos := exposed_word_pos hexp
    obtain ⟨-, ⟨j, hj, hsame⟩, -⟩ := hexp
    have := hmarked j hj
    omega
  · exact absurd h (by decide)

/-- With 8 as the end of the range, number 6 is requested again. -/
theorem highest_requested_again :
    ¬ ∀ (durable : Bool) (info : WriterInfo Nat) (fragKeys : List Int) (memory : Bitmap)
      (acknack : AckNackSubmessage) (after : WriterInfo Nat), Heard info →
      sendHeartbeatReplies durable info fragKeys memory = .ok (some acknack, after) →
      Requests after.recvd info.hbRange fragKeys acknack := by
  intro claim
  have hsent : (sendHeartbeatReplies false (behind 8) [] (fun _ => 0)).toOption.map (fun r =>
      (r.1.map fun a => (a.bitmapBase, a.numBits, bitSet a.bitmap 2), r.2.recvd)) =
      some (some (4, 5, true), [(0, 3), (6, 6)]) := by
    decide +kernel
  obtain ⟨⟨acknack, after⟩, hsend, heq⟩ := Option.map_eq_some_iff.mp hsent
  obtain ⟨hacknack, hrecvd⟩ := Prod.mk.inj heq
  obtain ⟨sent, rfl, hsent⟩ := Option.map_eq_some_iff.mp hacknack
  simp only [Prod.mk.injEq] at hsent
  obtain ⟨hbase, hnum, hbit⟩ := hsent
  have h := claim false (behind 8) [] (fun _ => 0) sent after (behind_heard (by decide) (by decide))
    (Folds.toOption_eq_some hsend)
  obtain ⟨⟨hmiss, -⟩, -⟩ := (h.bits 2 (by omega)).mp hbit
  rw [hbase, hrecvd] at hmiss
  exact hmiss ⟨(6, 6), by simp, by decide, by decide⟩

end

end OpenDDS.Guarantees.NackRequests
