import OpenDDS.Source.BitmapContents
import OpenDDS.Source.RtpsReader

/-!
The bitmap of an ACKNACK, as `RtpsUdpDataLink::send_heartbeat_replies` assembles it: the offsets
that its fills mark, and the bits that `remove_frags_from_bitmap` clears. Where a fill starts at
the base, what it marks has no gap, and nothing of the memory shows through. Behind a set with
gaps the words are shared between `to_bitmap` and one more fill, which starts at the highest
number received.
-/
namespace OpenDDS.Source.RtpsReader
open Library.RangeList SequenceNumber DisjointSequence RtpsMessages

section

theorem bitSet_clear (bitmap : Bitmap) (i k : Nat) :
    bitSet (setWord bitmap (i / 32) (bitmap (i / 32) &&& ~~~ bitMask (i % 32))) k =
      (bitSet bitmap k && !decide (k = i)) := by
  rw [bitSet_setWord]
  by_cases hword : k / 32 = i / 32
  · have hlt : k % 32 < 32 := Nat.mod_lt k (by decide)
    have hsame : decide (k % 32 = i % 32) = decide (k = i) := by
      rw [decide_eq_decide]
      omega
    rw [if_pos hword, BitVec.getMsbD_and, BitVec.getMsbD_not,
      getMsbD_bitMask (Nat.mod_lt i (by decide)), hsame, bitSet, hword]
    simp [hlt]
  · have hne : k ≠ i := fun h => hword (by rw [h])
    rw [if_neg hword]
    simp [hne]

theorem removeFrags_loop (fragKeys : List Int) (s : NackState) (n : Nat) :
    ∃ modified bitmap, (List.range n).foldl (fun acc i =>
        if bitSet acc.2.bitmap i && fragKeys.contains (ofValue (s.ack + i)) then
          (true, { acc.2 with
            bitmap := setWord acc.2.bitmap (i / 32) (acc.2.bitmap (i / 32) &&& ~~~ bitMask (i % 32)) })
        else acc) (false, s) = (modified, { s with bitmap := bitmap }) ∧
      ∀ k, bitSet bitmap k =
        (bitSet s.bitmap k && !(decide (k < n) && fragKeys.contains (ofValue (s.ack + k)))) := by
  induction n with
  | zero => exact ⟨false, s.bitmap, rfl, by simp⟩
  | succ n ih =>
    obtain ⟨modified, bitmap, heq, hbits⟩ := ih
    rw [List.range_succ, List.foldl_append, heq]
    simp only [List.foldl_cons, List.foldl_nil]
    split
    · rename_i hboth
      obtain ⟨-, hheld⟩ := Bool.and_eq_true_iff.mp hboth
      refine ⟨true, _, rfl, fun k => ?_⟩
      rw [bitSet_clear, hbits]
      by_cases hk : k = n
      · subst hk
        rw [hheld]
        simp
      · have hlt : k < n + 1 ↔ k < n := by omega
        simp [hk, hlt]
    · rename_i hnot
      refine ⟨modified, bitmap, rfl, fun k => ?_⟩
      by_cases hk : k = n
      · subst hk
        rw [hbits]
        rw [hbits] at hnot
        simp only [lt_irrefl, decide_false, Bool.false_and, Bool.not_false, Bool.and_true] at hnot ⊢
        cases hbit : bitSet s.bitmap k with
        | false => rfl
        | true =>
          rw [hbit, Bool.true_and, Bool.not_eq_true] at hnot
          rw [hnot]
          simp
      · have hlt : k < n + 1 ↔ k < n := by omega
        simp only [hbits, hlt]

theorem removeFrags_bits (fragKeys : List Int) (s : NackState) :
    ∃ modified bitmap, removeFragsFromBitmap fragKeys s = (modified, { s with bitmap := bitmap }) ∧
      ∀ k < s.numBits, bitSet bitmap k =
        (bitSet s.bitmap k && !fragKeys.contains (ofValue (s.ack + k))) := by
  obtain ⟨modified, bitmap, heq, hbits⟩ := removeFrags_loop fragKeys s s.numBits
  refine ⟨modified, bitmap, heq, fun k hk => ?_⟩
  simp [hbits, hk]

end

section

/-- The counted bits stand for the offsets `T`, and for those whose memory shows through. -/
structure Marks (memory : Bitmap) (T : Nat → Prop) (s : NackState) : Prop where
  bound : s.numBits ≤ 256
  bits : ∀ i < s.numBits, (bitSet s.bitmap i = true ↔ T i ∨ (Exposed T i ∧ bitSet memory i = true))
  counted : ∀ t, T t → t < s.numBits
  reach : ∀ i < s.numBits, Exposed T i → ∃ t, T t ∧ i < t

variable {memory prior : Bitmap} {T T' : Nat → Prop} {s : NackState}

theorem Marks.congr (h : Marks memory T s) (heq : ∀ t, T t ↔ T' t) : Marks memory T' s := by
  obtain rfl : T = T' := funext fun t => propext (heq t)
  exact h

theorem exposed_word_pos {i : Nat} (h : Exposed T i) : 0 < i / 32 := by
  obtain ⟨⟨⟨t, -, hlt⟩, -⟩, -⟩ := h
  omega

/-- Without a gap nothing is exposed. -/
theorem not_exposed_of_run (hrun : ∀ t, T t → ∀ k ≤ t, T k) (i : Nat) : ¬ Exposed T i := by
  intro h
  obtain ⟨⟨-, hfresh⟩, ⟨j, hj, hsame⟩, -⟩ := h
  exact hfresh ⟨hrun j hj _ (by omega), hrun j hj _ (by omega)⟩

/-- Marks without a gap, in an array of any contents. -/
theorem marks_of_run (hrun : ∀ t, T t → ∀ k ≤ t, T k) (hbound : s.numBits ≤ 256)
    (hbits : ∀ i < s.numBits, (bitSet s.bitmap i = true ↔ T i))
    (hcounted : ∀ t, T t → t < s.numBits) : Marks memory T s where
  bound := hbound
  bits i hi := by
    rw [hbits i hi]
    exact (or_iff_left fun h => not_exposed_of_run hrun i h.1).symm
  counted := hcounted
  reach i _ hexp := absurd hexp (not_exposed_of_run hrun i)

theorem marks_of_filled (hbound : s.numBits ≤ 256)
    (hbits : ∀ i < s.numBits,
      (bitSet s.bitmap i = true ↔ T i ∨ (Exposed T i ∧ bitSet prior i = true)))
    (hcounted : ∀ t, T t → t < s.numBits) (hlast : 0 < s.numBits → T (s.numBits - 1))
    (hprior : ∀ i, Exposed T i → (∃ t, T t ∧ i < t) → bitSet prior i = bitSet memory i) :
    Marks memory T s := by
  have hreach : ∀ i < s.numBits, Exposed T i → ∃ t, T t ∧ i < t := by
    intro i hi hexp
    have hend := hlast (by omega)
    have hne : i ≠ s.numBits - 1 := by
      rintro rfl
      exact absurd (hexp.2.2 _ hend rfl) (lt_irrefl _)
    exact ⟨s.numBits - 1, hend, by omega⟩
  refine ⟨hbound, fun i hi => ?_, hcounted, hreach⟩
  rw [hbits i hi]
  refine or_congr_right (and_congr_right fun hexp => ?_)
  rw [hprior i hexp (hreach i hi hexp)]

end

section

variable {first last : Int}

theorem bitmapNumLongs_le (first last : Int) : bitmapNumLongs first last ≤ 8 := Nat.min_le_left _ _

theorem lt_bitmapNumLongs (hwords : first + 255 < last → bitmapNumLongs first last = 8) {t : Nat}
    (ht : first + t ≤ last) (hlt : t < 256) : t < 32 * bitmapNumLongs first last := by
  by_cases hfar : first + 255 < last
  · omega
  · unfold bitmapNumLongs
    rw [Int.tdiv_eq_ediv_of_nonneg (by omega)]
    have hulong := toULong_eq (v := (last - first + 32) / 32) (by omega) (by omega)
    omega

theorem bitmapNumLongs_eq (hfar : first + 255 < last) (hsize : last - first < 2 ^ 32) :
    bitmapNumLongs first last = 8 := by
  unfold bitmapNumLongs
  rw [Int.tdiv_eq_ediv_of_nonneg (by omega)]
  have hulong := toULong_eq (v := (last - first + 32) / 32) (by omega) (by omega)
  omega

theorem effHigh_eq {ack : Int} (hpos : 1 ≤ ack) (hsum : ack + 255 ≤ maxValue) (hbHigh : Int) :
    (if hbHigh ≤ ofValue (plus255 ack) then hbHigh else ofValue (plus255 ack)) =
      min hbHigh (ack + 255) := by
  rw [plus255_of_le (by omega) hsum, ofValue_of_pos (by omega)]
  split <;> omega

theorem fillWords_of_lt (bitmap : Bitmap) (length newLen : Nat) :
    (if newLen > length then fillWords bitmap length newLen 0 else bitmap) =
      fillWords bitmap length newLen 0 := by
  split
  · rfl
  · funext w
    rw [fillWords, if_neg (by omega)]

end

section

variable {memory : Bitmap}

theorem fillBitmapRange_one {bitmap : Bitmap} (hzero : bitmap 0 = 0) (idx : Nat) {length : Nat}
    (hlen : 0 < length) : fillBitmapRange 0 idx bitmap length 1 = fillBitmapRange 0 idx bitmap length 0 := by
  have hwords : ∀ n, fillWords bitmap n 0 0 = bitmap := by
    intro n
    funext w
    rw [fillWords, if_neg (by omega)]
  have hlow : ∀ idx, lowWord bitmap 1 0 idx = lowWord bitmap 0 0 idx := by
    simp [lowWord, clearBitsIn, hzero]
  unfold fillBitmapRange
  simp only [Nat.zero_div, hwords, hlow, if_neg (show ¬ length ≤ 0 by omega)]

theorem fillFromBase {bitmap : Bitmap} (hzero : bitmap 0 = 0) {idx length : Nat}
    (hin : idx < 32 * length) (hlt : idx < 256) :
    ∃ after, fillBitmapRange 0 idx bitmap length 1 = (true, after, idx + 1) ∧
      ∀ i < idx + 1, bitSet after i = true := by
  have hclamp : clampTo idx length = idx := by
    unfold clampTo
    omega
  refine ⟨filledArray 0 idx bitmap 0, ?_, fun i hi => ?_⟩
  · rw [fillBitmapRange_one hzero idx (by omega), fillBitmapRange_eq (by omega) (by omega), hclamp,
      decide_eq_true hin]
  · rw [filledArray_bits (Nat.zero_le idx) le_rfl (.inl (by omega)), if_neg (by omega), if_neg (by omega),
      if_pos (by omega)]

theorem nackUpTo_marks {first last : Int} (hpos : 1 ≤ first) (hsum : first + 255 ≤ maxValue)
    (hle : first ≤ last) (hwords : first + 255 < last → bitmapNumLongs first last = 8) (bitmap : Bitmap) :
    Marks memory (fun t => first + t ≤ last ∧ t < 256)
        (nackUpTo first last (setWord bitmap 0 0)) ∧
      ∀ i : Nat, i < (nackUpTo first last (setWord bitmap 0 0)).numBits → first + i ≤ last := by
  have hidx : ∃ idx, (if last > first + 255 then 255 else toULong (last - first)) = idx ∧
      idx < 256 ∧ first + idx ≤ last ∧ ∀ t : Nat, first + t ≤ last → t < 256 → t ≤ idx := by
    by_cases hfar : last > first + 255
    · exact ⟨255, if_pos hfar, by omega, by omega, fun t _ _ => by omega⟩
    · have hulong := toULong_eq (v := last - first) (by omega) (by omega)
      exact ⟨toULong (last - first), if_neg hfar, by omega, by omega, fun t _ _ => by omega⟩
  obtain ⟨idx, heq, hlt, hlast, hmax⟩ := hidx
  have hzero : setWord bitmap 0 0 0 = 0 := rfl
  obtain ⟨after, hfill, hbits⟩ := fillFromBase hzero (lt_bitmapNumLongs hwords hlast hlt) hlt
  have hstate : nackUpTo first last (setWord bitmap 0 0) =
      ⟨first, bitmapNumLongs first last, after, idx + 1⟩ := by
    unfold nackUpTo
    simp only [plus255_of_le (show 0 ≤ first by omega) hsum, heq, hfill]
  rw [hstate]
  refine ⟨marks_of_run (fun t ht k hk => ?_) (show idx + 1 ≤ 256 by omega) (fun i hi => ?_)
    fun t ht => ?_, fun i hi => ?_⟩
  · exact ⟨by omega, by omega⟩
  · have hi : i < idx + 1 := hi
    exact iff_of_true (hbits i hi) ⟨by omega, by omega⟩
  · have := hmax t ht.1 ht.2
    exact show t < idx + 1 by omega
  · have hi : i < idx + 1 := hi
    omega

end

section

variable {memory : Bitmap} {recvd : List Range} {hbHigh : Int} {s : NackState}

theorem nackTail_none (h : recvd ≠ [] → hbHigh ≤ high recvd) : nackTail recvd hbHigh s = s := by
  unfold nackTail
  rw [if_neg]
  simp only [Bool.and_eq_true, Bool.not_eq_true', decide_eq_true_eq, not_and]
  intro hne
  have := h (by simpa [empty] using hne)
  omega

theorem nackTail_ack (recvd : List Range) (hbHigh : Int) (s : NackState) :
    (nackTail recvd hbHigh s).ack = s.ack := by
  unfold nackTail
  split <;> rfl

theorem nackTail_run {ack : Int} (hne : recvd ≠ []) (hd : disjoint recvd = false)
    (hhigh : high recvd < hbHigh) (hpos : 1 ≤ ack) (hsum : ack + 255 ≤ maxValue)
    (hack : ack ≤ hbHigh) (bitmap : Bitmap) :
    Marks memory (fun t => ack + t ≤ hbHigh ∧ t < 256)
      (nackTail recvd hbHigh ⟨ack, 1, setWord bitmap 0 0, 1⟩) := by
  have hemp : empty recvd = false := by simpa [empty] using hne
  have hulong := toULong_eq (v := min hbHigh (ack + 255) - ack) (by omega) (by omega)
  have hin : toULong (min hbHigh (ack + 255) - ack) <
      32 * bitmapNumLongs ack (min hbHigh (ack + 255)) := by
    refine lt_bitmapNumLongs (fun h => ?_) (by omega) (by omega)
    omega
  have hzero : fillWords (setWord bitmap 0 0) 1 (bitmapNumLongs ack (min hbHigh (ack + 255))) 0 0 = 0 := by
    rfl
  obtain ⟨after, hfill, hbits⟩ := fillFromBase hzero hin (by omega)
  have hstate : nackTail recvd hbHigh ⟨ack, 1, setWord bitmap 0 0, 1⟩ =
      ⟨ack, max 1 (bitmapNumLongs ack (min hbHigh (ack + 255))), after,
        toULong (min hbHigh (ack + 255) - ack) + 1⟩ := by
    unfold nackTail
    rw [if_pos (by simp [hemp, hhigh])]
    simp only [effHigh_eq hpos hsum, fillWords_of_lt, hd, Bool.false_eq_true, if_false, hfill]
  rw [hstate]
  refine marks_of_run (fun t ht k hk => ?_) ?_ (fun i hi => ?_) fun t ht => ?_
  · exact ⟨by omega, by omega⟩
  · show toULong (min hbHigh (ack + 255) - ack) + 1 ≤ 256
    omega
  · have hi : i < toULong (min hbHigh (ack + 255) - ack) + 1 := hi
    exact iff_of_true (hbits i hi) ⟨by omega, by omega⟩
  · show t < toULong (min hbHigh (ack + 255) - ack) + 1
    omega

/-- The offsets marked behind a set with gaps: of the missing numbers, and of the highest one
received if the heartbeat range goes on. -/
def Marked (recvd : List Range) (ack hbHigh : Int) (t : Nat) : Prop :=
  t < 256 ∧ ((¬ Covers recvd (ack + t) ∧ ack + t ≤ max hbHigh (high recvd)) ∨
    (high recvd < hbHigh ∧ ack + t = high recvd))

theorem marked_iff_missing {ack : Int} (h : ack + 256 ≤ high recvd ∨ hbHigh ≤ high recvd) (t : Nat) :
    Marked recvd ack hbHigh t ↔ ¬ Covers recvd (ack + t) ∧ ack + t ≤ high recvd ∧ t < 256 := by
  constructor
  · rintro ⟨hlt, ⟨hmiss, hle⟩ | ⟨hend, hsame⟩⟩
    · exact ⟨hmiss, by omega, hlt⟩
    · omega
  · rintro ⟨hmiss, hle, hlt⟩
    exact ⟨hlt, .inl ⟨hmiss, by omega⟩⟩

theorem filled_zeroed {prior bitmap : Bitmap} {T : Nat → Prop} {numBits length : Nat}
    (h : Filled prior T numBits bitmap) (hlen : numBits ≤ 32 * length) (newLen : Nat) :
    Filled (fillWords prior length newLen 0) T numBits (fillWords bitmap length newLen 0) := by
  refine ⟨fun i hi => ?_, fun hpos i hi hsame => ?_, fun i hi => ?_, h.last, h.bound⟩
  · rw [bitSet_fillWords, bitSet_fillWords, if_neg (by omega), if_neg (by omega)]
    exact h.below i hi
  · rw [bitSet_fillWords, bitSet_fillWords, if_neg (by omega), if_neg (by omega)]
    exact h.tail hpos i hi hsame
  · rw [bitSet_fillWords, bitSet_fillWords, h.above i hi]

theorem nackTail_gaps {W : Nat → Prop} (wf : WellFormed recvd) (hd : disjoint recvd = true)
    (hack : s.ack = cumulativeAck recvd + 1) (hsize : hbHigh - s.ack < 2 ^ 32)
    (hsum : high recvd < hbHigh → s.ack + 255 ≤ maxValue)
    (hfilled : Filled (setWord memory 0 0) W s.numBits s.bitmap) (hlen : s.numBits ≤ 32 * s.length)
    (hwords : s.length ≤ 8)
    (hW : ∀ t : Nat, W t ↔ ¬ Covers recvd (s.ack + t) ∧ s.ack + t ≤ high recvd ∧ t < 256) :
    Marks memory (Marked recvd s.ack hbHigh) (nackTail recvd hbHigh s) := by
  have hne : recvd ≠ [] := by
    rintro rfl
    cases hd
  have hemp : empty recvd = false := by simpa [empty] using hne
  have hcov := covers_high wf.canonical hne
  have hlt := cumulativeAck_lt_high wf hd
  have hack0 := (low_nonneg wf).trans (low_le_cumulativeAck wf.canonical hne)
  have hshown : ∀ {T : Nat → Prop} {i : Nat}, Exposed T i →
      bitSet (setWord memory 0 0) i = bitSet memory i := by
    intro T i hexp
    have := exposed_word_pos hexp
    rw [bitSet_setWord, if_neg (by omega)]
  by_cases htail : high recvd < hbHigh
  · have hulong := toULong_eq (v := min hbHigh (s.ack + 255) - s.ack) (by omega) (by omega)
    have hlow := toULong_eq (v := high recvd - s.ack) (by omega) (by omega)
    have hin : toULong (min hbHigh (s.ack + 255) - s.ack) <
        32 * bitmapNumLongs s.ack (min hbHigh (s.ack + 255)) := by
      refine lt_bitmapNumLongs (fun h => ?_) (by omega) (by omega)
      omega
    have hnewLen := bitmapNumLongs_le s.ack (min hbHigh (s.ack + 255))
    have hzeroed := filled_zeroed hfilled hlen (bitmapNumLongs s.ack (min hbHigh (s.ack + 255)))
    have hstate : ∀ ok bitmap numBits, fillBitmapRange (toULong (high recvd - s.ack))
        (toULong (min hbHigh (s.ack + 255) - s.ack))
        (fillWords s.bitmap s.length (bitmapNumLongs s.ack (min hbHigh (s.ack + 255))) 0)
        (bitmapNumLongs s.ack (min hbHigh (s.ack + 255))) s.numBits = (ok, bitmap, numBits) →
        nackTail recvd hbHigh s =
          ⟨s.ack, max s.length (bitmapNumLongs s.ack (min hbHigh (s.ack + 255))), bitmap, numBits⟩ := by
      intro ok bitmap numBits heq
      unfold nackTail
      rw [if_pos (by simp [hemp, htail])]
      simp only [effHigh_eq (show 1 ≤ s.ack by omega) (hsum htail), fillWords_of_lt, hd, if_true, heq]
    by_cases hfar : s.ack + 256 ≤ high recvd
    · -- The highest number is beyond the bitmap, and the fill does nothing.
      rw [hstate _ _ _ (fillBitmapRange_beyond (by omega))]
      have heq : ∀ t, W t ↔ Marked recvd s.ack hbHigh t := by
        intro t
        rw [hW, marked_iff_missing (.inl hfar)]
      refine Marks.congr (marks_of_filled ?_ hzeroed.below hzeroed.bound hzeroed.last ?_) heq
      · show s.numBits ≤ 256
        omega
      rintro i hexp ⟨t, ht, hit⟩
      have htn := hzeroed.bound t ht
      rw [bitSet_fillWords, if_neg (by omega)]
      exact hshown hexp
    · generalize hl : toULong (high recvd - s.ack) = low at *
      generalize hh : toULong (min hbHigh (s.ack + 255) - s.ack) = hi at *
      have hclamp : clampTo hi (bitmapNumLongs s.ack (min hbHigh (s.ack + 255))) = hi := by
        unfold clampTo
        omega
      have hnum : s.numBits ≤ low := by
        by_contra hgt
        have hlast := (hW _).mp (hfilled.last (by omega))
        have hend : s.ack + (s.numBits - 1 : Nat) = high recvd := by omega
        rw [hend] at hlast
        exact hlast.1 hcov
      rw [hstate _ _ _ (fillBitmapRange_eq (by omega) (by omega)), hclamp]
      have heq : ∀ t, withRange W low hi t ↔ Marked recvd s.ack hbHigh t := by
        intro t
        rw [withRange, hW, Marked]
        constructor
        · rintro (⟨hmiss, hle, hlt⟩ | ⟨hge, hle⟩)
          · exact ⟨hlt, .inl ⟨hmiss, by omega⟩⟩
          · refine ⟨by omega, ?_⟩
            by_cases hsame : s.ack + t = high recvd
            · exact .inr ⟨htail, hsame⟩
            · refine .inl ⟨fun hc => ?_, by omega⟩
              have := le_high wf.canonical hc
              omega
        · rintro ⟨hlt, ⟨hmiss, hle⟩ | ⟨-, hsame⟩⟩
          · by_cases hbelow : s.ack + t ≤ high recvd
            · exact .inl ⟨hmiss, hbelow, hlt⟩
            · exact .inr ⟨by omega, by omega⟩
          · exact .inr ⟨by omega, by omega⟩
      refine (marks_of_filled (show hi + 1 ≤ 256 by omega)
        (hzeroed.fill_below (by omega) hnum (.inl (show s.numBits ≤ 2 ^ 32 - 32 by omega))) ?_ ?_ ?_).congr heq
      · rintro t (ht | ht)
        · have := hzeroed.bound t ht
          exact show t < hi + 1 by omega
        · exact show t < hi + 1 by omega
      · intro _
        exact .inr ⟨show low ≤ hi + 1 - 1 by omega, show hi + 1 - 1 ≤ hi by omega⟩
      · rintro i hexp ⟨t, ht, hit⟩
        -- What the range of this fill marks has no gap, so an exposed word lies below it.
        have hword : ¬ s.length ≤ i / 32 := by
          obtain ⟨-, ⟨j, hj, hsame⟩, hall⟩ := hexp
          have hji := hall j hj hsame
          rcases hj with hj | hj
          · have := hzeroed.bound j hj
            omega
          · rcases ht with ht | ht
            · have := hzeroed.bound t ht
              omega
            · exact absurd (hall i (.inr ⟨by omega, by omega⟩) rfl) (lt_irrefl i)
        rw [bitSet_fillWords, if_neg (by omega)]
        exact hshown hexp
  · rw [nackTail_none fun _ => by omega]
    have heq : ∀ t, W t ↔ Marked recvd s.ack hbHigh t := by
      intro t
      rw [hW, marked_iff_missing (.inr (by omega))]
    exact (marks_of_filled (by omega) hfilled.below hfilled.bound hfilled.last
      fun i hexp _ => hshown hexp).congr heq

end

section

variable {α : Type} {durable : Bool} {info : WriterInfo α} {memory : Bitmap} {recvd : List Range}

/-- The set after `insert(SequenceRange(ZERO(), low()))`, which fails at the largest number. -/
def bridged (recvd : List Range) : List Range :=
  if 1 < low recvd ∧ low recvd < maxValue then (0, cumulativeAck recvd) :: recvd.tail else recvd

theorem insertBelowLow_eq (wf : WellFormed recvd) (hne : recvd ≠ []) :
    (if low recvd > 1 then insertOption recvd (some (zero, low recvd)) else .ok recvd) =
      .ok (bridged recvd) := by
  cases recvd with
  | nil => exact absurd rfl hne
  | cons x rest =>
    have hle := wf.canonical.nonempty x (by simp)
    have hmax := (wf.within x (by simp)).2
    unfold bridged
    rw [low_cons]
    by_cases hlow : 1 < x.1
    · rw [if_pos hlow]
      by_cases hend : x.1 < maxValue
      · rw [if_pos ⟨hlow, hend⟩]
        have hkey : previousKey zero = 0 := by decide
        have hreach : reaching x.1 (x :: rest) = x :: rest := reaching_cons_of_ge hle
        have hreach0 : reaching 0 (x :: rest) = x :: rest := reaching_cons_of_ge (by omega)
        have hbelow0 : below 0 (x :: rest) = [] := below_cons_of_ge (by omega)
        have habove : mergeAbove (0, x.1) (x :: rest) = ((0, x.2), rest) := by
          rw [mergeAbove, if_pos]
          simp only [next_of_lt hend]
          omega
        have hmerge : mergeBelow (0, x.2) (x :: rest) = (0, x.2) := by
          rw [mergeBelow, if_neg]
          omega
        have herase : eraseBetween [] (x :: rest) rest = .ok rest := by
          rw [eraseBetween, if_neg (by simp)]
          rfl
        have hinsert : insertByEnd (0, x.2) ([] ++ rest) = [] ++ (0, x.2) :: rest := by
          refine insertByEnd_between (by simp) fun b hb => ?_
          have h₁ := wf.canonical.head_lt hb
          have h₂ := wf.canonical.nonempty b (by simp [hb])
          omega
        rw [List.nil_append, List.nil_append] at hinsert
        have hins : insertI (x :: rest) (0, x.1) = .ok (true, (0, x.2) :: rest) := by
          unfold insertI
          simp only [hreach, habove, show previousKey 0 = 0 from hkey, hreach0, hbelow0, herase,
            hmerge, hinsert, startsBy]
          rw [if_neg (by omega), if_neg (by simp only [decide_eq_true_eq]; omega)]
        show insertOption (x :: rest) (some (0, x.1)) = _
        simp only [insertOption, hins]
        rfl
      · obtain rfl : rest = [] := by
          refine List.eq_nil_iff_forall_not_mem.mpr fun y hy => ?_
          have h₁ := wf.canonical.head_lt hy
          have h₂ := wf.canonical.nonempty y (by simp [hy])
          have h₃ := (wf.within y (by simp [hy])).2
          omega
        obtain ⟨a, b⟩ := x
        obtain rfl : a = maxValue := by simp only at hle hmax hend; omega
        obtain rfl : b = maxValue := by simp only at hle hmax; omega
        decide
    · rw [if_neg hlow, if_neg (by omega)]

structure Lowered (recvd after : List Range) : Prop where
  wellFormed : WellFormed after
  nonempty : after ≠ []
  ack : cumulativeAck after = cumulativeAck recvd
  highest : high after = high recvd
  gaps : disjoint after = disjoint recvd
  last : disjoint recvd = true → lastAck after = lastAck recvd
  ranges : ∀ r : Range, cumulativeAck recvd < r.1 → (r ∈ after ↔ r ∈ recvd)
  covers : ∀ n, cumulativeAck recvd < n → (Covers after n ↔ Covers recvd n)
  closed : low recvd ≠ maxValue → ∀ n, 1 ≤ n → n ≤ cumulativeAck recvd → Covers after n

theorem bridged_lowered (wf : WellFormed recvd) (hne : recvd ≠ []) : Lowered recvd (bridged recvd) := by
  cases recvd with
  | nil => exact absurd rfl hne
  | cons x rest =>
    have hle := wf.canonical.nonempty x (by simp)
    have hwithin := wf.within x (by simp)
    obtain ⟨a, heq, hpos, hlow, hone⟩ : ∃ a, bridged (x :: rest) = (a, x.2) :: rest ∧ 0 ≤ a ∧
        a ≤ x.1 ∧ (x.1 ≠ maxValue → a ≤ 1) := by
      unfold bridged
      rw [low_cons]
      split
      · exact ⟨0, rfl, le_rfl, by omega, by omega⟩
      · exact ⟨x.1, rfl, by omega, le_rfl, by omega⟩
    rw [heq]
    have hcanonical := canonical_cons.mp wf.canonical
    refine ⟨⟨canonical_cons.mpr ⟨by simp only; omega, hcanonical.2⟩, ?_⟩, by simp, rfl, ?_, rfl, ?_,
      fun r hr => ?_, fun n hn => ?_, fun hmax n hone' hn => ?_⟩
    · exact within_cons.mpr ⟨⟨hpos, hwithin.2⟩, (within_cons.mp wf.within).2⟩
    · cases rest with
      | nil => rfl
      | cons y ys => rw [high_cons_cons, high_cons_cons]
    · cases rest with
      | nil => intro hd; cases hd
      | cons y ys => intro _; simp [lastAck]
    · rw [cumulativeAck_cons] at hr
      simp only [List.mem_cons]
      refine or_congr_left ⟨?_, ?_⟩
      · rintro rfl
        omega
      · rintro rfl
        omega
    · rw [cumulativeAck_cons] at hn
      simp only [covers_cons]
      refine or_congr_left ⟨fun h => ?_, fun h => ?_⟩ <;> omega
    · exact (covers_cons _ _ _).mpr (.inl ⟨(hone hmax).trans hone', hn⟩)

theorem nackStart_empty (h : info.recvd = []) :
    nackStart durable info memory =
      .ok ([], nackUpTo info.hbRange.1 info.hbRange.2 (setWord memory 0 0)) := by
  unfold nackStart
  simp [h, empty]

/-- A reader that was up to date starts below what it has received. -/
def Backfills (durable : Bool) (info : WriterInfo α) : Prop :=
  durable = true ∧ shouldNack info = false ∧ info.recvd ≠ [] ∧ info.hbRange.1 < low info.recvd

instance : Decidable (Backfills durable info) := by
  unfold Backfills
  infer_instance

theorem nackStart_backfill (h : Backfills durable info) (hpending : info.ackPending = true) :
    nackStart durable info memory =
      .ok (info.recvd, nackUpTo info.hbRange.1 (low info.recvd) (setWord memory 0 0)) := by
  obtain ⟨hdurable, hnack, hne, hlow⟩ := h
  have hemp : empty info.recvd = false := by simpa [empty] using hne
  unfold nackStart
  simp [hdurable, hnack, hemp, hpending, hlow]

theorem nackStart_bridge (wf : WellFormed info.recvd) (hne : info.recvd ≠ [])
    (h : ¬ Backfills durable info) :
    nackStart durable info memory = .ok (bridged info.recvd,
      if disjoint (bridged info.recvd) then
        let filled := toBitmap (bridged info.recvd) (setWord memory 0 0)
          (bitmapNumLongs (next (cumulativeAck info.recvd)) (previous (lastAck (bridged info.recvd)))) true
        { ack := next (cumulativeAck info.recvd)
          length := bitmapNumLongs (next (cumulativeAck info.recvd))
            (previous (lastAck (bridged info.recvd)))
          bitmap := filled.2.1, numBits := filled.2.2 }
      else ⟨next (cumulativeAck info.recvd), 1, setWord memory 0 0, 1⟩) := by
  have hemp : empty info.recvd = false := by simpa [empty] using hne
  have hbranch : (durable && info.ackPending && !(shouldNack info || (durable && empty info.recvd)) &&
      decide (low info.recvd > info.hbRange.1)) = false := by
    by_contra hb
    simp only [hemp, Bool.and_false, Bool.or_false, Bool.not_eq_false, Bool.and_eq_true,
      Bool.not_eq_true', decide_eq_true_eq] at hb
    obtain ⟨⟨⟨hdurable, -⟩, hnack⟩, hlow⟩ := hb
    exact h ⟨hdurable, hnack, hne, hlow⟩
  unfold nackStart
  simp only [hbranch, insertBelowLow_eq wf hne]
  rw [if_neg (by simp [hemp]), if_neg (by simp)]
  split <;> rfl

theorem sendHeartbeatReplies_of_start {fragKeys : List Int} {start : NackState}
    (hreplies : (info.ackPending || (shouldNack info || (durable && empty info.recvd))) = true)
    (hstart : nackStart durable info memory = .ok (recvd, start)) :
    ∃ acknack after, sendHeartbeatReplies durable info fragKeys memory = .ok (some acknack, after) ∧
      after.recvd = recvd ∧ acknack.bitmapBase = start.ack ∧
      acknack.numBits = (nackTail recvd info.hbRange.2 start).numBits ∧
      ∀ k < acknack.numBits, bitSet acknack.bitmap k =
        (bitSet (nackTail recvd info.hbRange.2 start).bitmap k &&
          !fragKeys.contains (ofValue (start.ack + k))) := by
  obtain ⟨modified, bitmap, hremove, hbits⟩ :=
    removeFrags_bits fragKeys (nackTail recvd info.hbRange.2 start)
  unfold sendHeartbeatReplies
  simp only [hreplies, if_true, hstart, hremove]
  refine ⟨_, _, rfl, rfl, rfl, rfl, fun k hk => ?_⟩
  rw [← nackTail_ack recvd info.hbRange.2 start]
  exact hbits k hk

end

end OpenDDS.Source.RtpsReader
