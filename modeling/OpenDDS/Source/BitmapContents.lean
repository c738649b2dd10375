import OpenDDS.Source.BitmapInsert

/-!
The bits that `fill_bitmap_range` leaves in its array. Ranges of offsets are filled in
ascending order into an array whose contents are arbitrary at first. A fill clears what lies
between it and the one before, and the rest of the word it ends in only where it zeroed that
word itself: in a word that a later fill starts in and ends in, the bits behind it keep what
the array held before (`Fresh`), and they show when another fill follows in a later word
(`Exposed`).
-/
namespace OpenDDS.Source.DisjointSequence
open Library.RangeList SequenceNumber

section

variable {bitmap : Bitmap} {x : BitVec 32}

theorem getMsbD_bitMask {b j : Nat} (hb : b < 32) : (bitMask b).getMsbD j = decide (j = b) := by
  unfold bitMask
  by_cases h : j = b
  · simp [h, show b + (31 - b) = 31 by omega]
  · simp [h, show ¬ j + (31 - b) = 31 by omega]

/-- A loop over the bits from `first` up to `stop` that gives each of them one value. -/
theorem getMsbD_foldl (value : Bool) {put : BitVec 32 → Nat → BitVec 32} {first stop j : Nat}
    (hput : ∀ x, ∀ b < 32, (put x b).getMsbD j = if j = b then value else x.getMsbD j)
    (hstop : stop ≤ 32) : ((List.range' first (stop - first)).foldl put x).getMsbD j =
      if first ≤ j ∧ j < stop then value else x.getMsbD j := by
  have hfold : ∀ (bs : List Nat) (x : BitVec 32), (∀ b ∈ bs, b < 32) →
      (bs.foldl put x).getMsbD j = if j ∈ bs then value else x.getMsbD j := by
    intro bs
    induction bs with
    | nil => simp
    | cons b bs ih =>
      intro x hbs
      rw [List.foldl_cons, ih _ fun c hc => hbs c (by simp [hc]), hput x b (hbs b (by simp))]
      by_cases h : j = b <;> simp [h]
  rw [hfold _ _ fun b hb => by rw [List.mem_range'_1] at hb; omega]
  refine if_congr ?_ rfl rfl
  rw [List.mem_range'_1]
  omega

theorem getMsbD_setBitsIn {first stop j : Nat} (hstop : stop ≤ 32) :
    (setBitsIn x first stop).getMsbD j = (x.getMsbD j || decide (first ≤ j ∧ j < stop)) := by
  unfold setBitsIn
  rw [getMsbD_foldl true _ hstop]
  · split_ifs with h <;> simp [h]
  · intro x b hb
    rw [BitVec.getMsbD_or, getMsbD_bitMask hb]
    by_cases h : j = b <;> simp [h]

theorem getMsbD_clearBitsIn {first stop j : Nat} (hstop : stop ≤ 32) (hj : j < 32) :
    (clearBitsIn x first stop).getMsbD j = (x.getMsbD j && !decide (first ≤ j ∧ j < stop)) := by
  unfold clearBitsIn
  rw [getMsbD_foldl false _ hstop]
  · split_ifs with h <;> simp [h]
  · intro x b hb
    rw [BitVec.getMsbD_and, BitVec.getMsbD_not, getMsbD_bitMask hb]
    by_cases h : j = b <;> simp [h, hj]

theorem bitSet_setWord (idx i : Nat) :
    bitSet (setWord bitmap idx x) i = if i / 32 = idx then x.getMsbD (i % 32) else bitSet bitmap i := by
  unfold bitSet setWord
  split <;> rfl

theorem bitSet_fillWords (first stop i : Nat) :
    bitSet (fillWords bitmap first stop x) i =
      if first ≤ i / 32 ∧ i / 32 < stop then x.getMsbD (i % 32) else bitSet bitmap i := by
  unfold bitSet fillWords
  split <;> rfl

end

section

variable {bitmap : Bitmap} {low high length numBits i : Nat}

theorem getMsbD_lowWord (hle : low ≤ high) (hi : i / 32 = low / 32) :
    (lowWord bitmap numBits low high).getMsbD (i % 32) =
      ((decide (low ≤ i ∧ i ≤ high)) ||
        (decide (0 < numBits) && bitSet bitmap i &&
          !decide (((numBits - 1) / 32 = low / 32 → numBits ≤ i) ∧ i < low))) := by
  unfold lowWord
  rw [getMsbD_setBitsIn (by split <;> omega)]
  have hset : decide (low % 32 ≤ i % 32 ∧
      i % 32 < (if high / 32 = low / 32 then high % 32 else 31) + 1) = decide (low ≤ i ∧ i ≤ high) := by
    rw [decide_eq_decide]
    split <;> omega
  rw [hset, Bool.or_comm]
  by_cases hpos : 0 < numBits
  · rw [if_pos hpos, getMsbD_clearBitsIn (by omega) (by omega)]
    have hclear : decide ((if (numBits - 1) / 32 = low / 32 then (numBits - 1) % 32 + 1 else 0) ≤ i % 32 ∧
        i % 32 < low % 32) =
        decide (((numBits - 1) / 32 = low / 32 → numBits ≤ i) ∧ i < low) := by
      rw [decide_eq_decide]
      split <;> omega
    rw [hclear]
    simp only [hpos, decide_true, Bool.true_and, bitSet, hi]
  · simp [hpos]

/-- The last offset that a fill writes: its end, or the end of the array. -/
def clampTo (high length : Nat) : Nat := min high (32 * length - 1)

/-- The array behind a fill from `low` to `high`, where `high` is inside the array. -/
def filledArray (low high : Nat) (bitmap : Bitmap) (numBits : Nat) : Bitmap :=
  let bitmap := fillWords bitmap ((numBits + 31) % 2 ^ 32 / 32) (low / 32) 0
  let bitmap := setWord bitmap (low / 32) (lowWord bitmap numBits low high)
  let bitmap := fillWords bitmap (low / 32 + 1) (high / 32) (BitVec.allOnes 32)
  if low / 32 < high / 32 then setWord bitmap (high / 32) (setBitsIn 0 0 (high % 32 + 1))
  else bitmap

theorem fillBitmapRange_mod (hin : low / 32 < length) :
    fillBitmapRange low high bitmap length numBits =
      (decide (high < 32 * length), filledArray low (clampTo high length) bitmap numBits,
        (clampTo high length + 1) % 2 ^ 32) := by
  have hclamp : (if decide (length ≤ high / 32) = true then length * 32 - 1 else high) =
      clampTo high length := by
    unfold clampTo
    split <;> rename_i h <;> simp only [decide_eq_true_eq] at h <;> omega
  unfold fillBitmapRange
  rw [if_neg (by omega)]
  dsimp only
  rw [hclamp]
  refine Prod.ext ?_ rfl
  rw [← decide_not, decide_eq_decide]
  omega

theorem fillBitmapRange_eq (hin : low / 32 < length) (hcount : clampTo high length < 2 ^ 32 - 1) :
    fillBitmapRange low high bitmap length numBits =
      (decide (high < 32 * length), filledArray low (clampTo high length) bitmap numBits,
        clampTo high length + 1) := by
  rw [fillBitmapRange_mod hin, Nat.mod_eq_of_lt (by omega)]

theorem fillBitmapRange_beyond (hout : length ≤ low / 32) :
    fillBitmapRange low high bitmap length numBits = (false, bitmap, numBits) := by
  unfold fillBitmapRange
  rw [if_pos hout]

theorem filledArray_front (hle : low ≤ high) (hi : i / 32 < low / 32) :
    bitSet (filledArray low high bitmap numBits) i =
      if (numBits + 31) % 2 ^ 32 / 32 ≤ i / 32 then false else bitSet bitmap i := by
  have hhigh : i / 32 ≠ high / 32 := by omega
  unfold filledArray
  rw [apply_ite (bitSet · i), bitSet_setWord, if_neg hhigh, ite_self, bitSet_fillWords,
    if_neg (by omega), bitSet_setWord, if_neg (by omega), bitSet_fillWords]
  simp [hi]

theorem filledArray_bits (hle : low ≤ high) (hnum : numBits ≤ low)
    (hstart : numBits ≤ 2 ^ 32 - 32 ∨ high < 2 ^ 32 ∧ ∀ i < 2 ^ 32 - 32, bitSet bitmap i = false)
    (i : Nat) :
    bitSet (filledArray low high bitmap numBits) i =
      if i < numBits then bitSet bitmap i
      else if i < low then
        decide (0 < numBits ∧ i / 32 = (numBits - 1) / 32 ∧ i / 32 < low / 32) && bitSet bitmap i
      else if i ≤ high then true
      else if i / 32 = high / 32 then
        decide (0 < numBits ∧ high / 32 = low / 32) && bitSet bitmap i
      else bitSet bitmap i := by
  have hzeroed : bitSet (fillWords bitmap ((numBits + 31) % 2 ^ 32 / 32) (low / 32) 0) i =
      if (numBits + 31) / 32 ≤ i / 32 ∧ i / 32 < low / 32 then false else bitSet bitmap i := by
    rw [bitSet_fillWords]
    rcases hstart with hsmall | ⟨hhigh, hclear⟩
    · rw [Nat.mod_eq_of_lt (show numBits + 31 < 2 ^ 32 by omega)]
      simp
    · -- what the wrapped count clears as well is clear already
      by_cases hword : i / 32 < low / 32
      · simp [hclear i (by omega)]
      · simp [hword]
  have hstarted : bitSet (setWord (fillWords bitmap ((numBits + 31) % 2 ^ 32 / 32) (low / 32) 0) (low / 32)
      (lowWord (fillWords bitmap ((numBits + 31) % 2 ^ 32 / 32) (low / 32) 0) numBits low high)) i =
      if i / 32 = low / 32 then
        decide (low ≤ i ∧ i ≤ high) || (decide (0 < numBits) && bitSet bitmap i &&
          !decide (((numBits - 1) / 32 = low / 32 → numBits ≤ i) ∧ i < low))
      else if (numBits + 31) / 32 ≤ i / 32 ∧ i / 32 < low / 32 then false else bitSet bitmap i := by
    rw [bitSet_setWord]
    by_cases hw : i / 32 = low / 32
    · rw [if_pos hw, if_pos hw, getMsbD_lowWord hle hw, hzeroed, if_neg (by omega)]
    · rw [if_neg hw, if_neg hw, hzeroed]
  have harray : bitSet (filledArray low high bitmap numBits) i =
      if low / 32 < high / 32 ∧ i / 32 = high / 32 then decide (i ≤ high)
      else if low / 32 < i / 32 ∧ i / 32 < high / 32 then true
      else if i / 32 = low / 32 then
        decide (low ≤ i ∧ i ≤ high) || (decide (0 < numBits) && bitSet bitmap i &&
          !decide (((numBits - 1) / 32 = low / 32 → numBits ≤ i) ∧ i < low))
      else if (numBits + 31) / 32 ≤ i / 32 ∧ i / 32 < low / 32 then false else bitSet bitmap i := by
    unfold filledArray
    dsimp only
    generalize setWord (fillWords bitmap ((numBits + 31) % 2 ^ 32 / 32) (low / 32) 0) (low / 32)
        (lowWord (fillWords bitmap ((numBits + 31) % 2 ^ 32 / 32) (low / 32) 0) numBits low high) = started
      at hstarted
    have hones : bitSet (fillWords started (low / 32 + 1) (high / 32) (BitVec.allOnes 32)) i =
        if low / 32 < i / 32 ∧ i / 32 < high / 32 then true else bitSet started i := by
      rw [bitSet_fillWords]
      simp only [BitVec.getMsbD_allOnes, Nat.add_one_le_iff]
      rw [decide_eq_true (Nat.mod_lt i (by decide))]
    by_cases hspan : low / 32 < high / 32
    · rw [if_pos hspan, bitSet_setWord]
      by_cases hw : i / 32 = high / 32
      · rw [if_pos hw, if_pos ⟨hspan, hw⟩, getMsbD_setBitsIn (by omega)]
        simp only [BitVec.ofNat_eq_ofNat, BitVec.getMsbD_zero, Bool.false_or, decide_eq_decide]
        omega
      · rw [if_neg hw, if_neg fun h => hw h.2, hones, hstarted]
    · rw [if_neg hspan, if_neg fun h => hspan h.1, hones, hstarted]
  rw [harray]
  rcases lt_trichotomy (i / 32) (low / 32) with hword | hword | hword
  · -- In front of the word that the fill starts in.
    rw [if_neg (by omega), if_neg (by omega), if_neg (by omega)]
    by_cases hn : i < numBits
    · rw [if_pos hn, if_neg (by omega)]
    · rw [if_neg hn, if_pos (show i < low by omega)]
      by_cases htail : 0 < numBits ∧ i / 32 = (numBits - 1) / 32
      · rw [if_neg (by omega)]
        simp [htail.1, htail.2, htail.2 ▸ hword]
      · rw [if_pos (by omega)]
        have hout : ¬ (0 < numBits ∧ i / 32 = (numBits - 1) / 32 ∧ i / 32 < low / 32) :=
          fun h => htail ⟨h.1, h.2.1⟩
        simp [hout]
  · -- In the word that the fill starts in.
    rw [if_neg (by omega), if_neg (by omega), if_pos hword]
    by_cases hn : i < numBits
    · have hsame : (numBits - 1) / 32 = low / 32 := by omega
      simp [hsame, show ¬ (low ≤ i ∧ i ≤ high) by omega, show 0 < numBits by omega,
        show ¬ numBits ≤ i by omega]
    · rw [if_neg hn]
      by_cases hl : i < low
      · simp [show ¬ (low ≤ i ∧ i ≤ high) by omega, show numBits ≤ i by omega, hl, hword]
      · rw [if_neg hl]
        by_cases hh : i ≤ high
        · simp [hh, show low ≤ i by omega]
        · rw [if_neg hh, if_pos (by omega)]
          simp [hh, hl, show high / 32 = low / 32 by omega]
  · -- Behind it.
    by_cases hlast : i / 32 = high / 32
    · rw [if_pos (by omega), if_neg (by omega), if_neg (by omega), if_pos hlast]
      have hspan : ¬ (0 < numBits ∧ high / 32 = low / 32) := by omega
      by_cases hh : i ≤ high
      · simp [hh]
      · simp [hh, hspan]
    · by_cases hmid : i / 32 < high / 32
      · rw [if_neg (by omega), if_pos (by omega), if_neg (by omega), if_neg (by omega),
          if_pos (by omega)]
      · rw [if_neg (by omega), if_neg (by omega), if_neg (by omega), if_neg (by omega),
          if_neg (by omega), if_neg (by omega), if_neg (by omega), if_neg hlast]

end

section

/-- A word that an earlier fill leaves untouched and a later one starts in. -/
def Fresh (T : Nat → Prop) (w : Nat) : Prop :=
  (∃ t, T t ∧ t / 32 < w) ∧ ¬ (T (32 * w - 1) ∧ T (32 * w))

/-- A position behind the last filled one of a fresh word. -/
def Exposed (T : Nat → Prop) (i : Nat) : Prop :=
  Fresh T (i / 32) ∧ (∃ j, T j ∧ j / 32 = i / 32) ∧ ∀ j, T j → j / 32 = i / 32 → j < i

/-- The offsets `T` have been filled into an array that held `prior`, up to `numBits`. -/
structure Filled (prior : Bitmap) (T : Nat → Prop) (numBits : Nat) (bitmap : Bitmap) : Prop where
  below : ∀ i < numBits, (bitSet bitmap i = true ↔ T i ∨ (Exposed T i ∧ bitSet prior i = true))
  tail : 0 < numBits → ∀ i, numBits ≤ i → i / 32 = (numBits - 1) / 32 →
    (bitSet bitmap i = true ↔ Fresh T (i / 32) ∧ bitSet prior i = true)
  above : ∀ i, (0 < numBits → (numBits - 1) / 32 < i / 32) → bitSet bitmap i = bitSet prior i
  last : 0 < numBits → T (numBits - 1)
  bound : ∀ t, T t → t < numBits

variable {prior bitmap : Bitmap} {T : Nat → Prop} {numBits low high : Nat}

theorem filled_start (prior : Bitmap) : Filled prior (fun _ => False) 0 prior where
  below := by simp
  tail := by simp
  above := fun _ _ => rfl
  last := by simp
  bound := by simp

/-- The offsets after one more fill. -/
def withRange (T : Nat → Prop) (low high t : Nat) : Prop := T t ∨ (low ≤ t ∧ t ≤ high)

theorem withRange_iff {t : Nat} (h : t < low) : withRange T low high t ↔ T t := by
  unfold withRange
  simp only [show ¬ (low ≤ t ∧ t ≤ high) by omega, or_false]

theorem Filled.fresh_iff (h : Filled prior T numBits bitmap) (hnum : numBits ≤ low) {w : Nat}
    (hw : 32 * w < numBits) : Fresh (withRange T low high) w ↔ Fresh T w := by
  have hbound := h.bound
  unfold Fresh
  rw [withRange_iff (show 32 * w - 1 < low by omega), withRange_iff (show 32 * w < low by omega)]
  refine and_congr_left fun _ => exists_congr fun t => and_congr_left fun ht => ?_
  exact withRange_iff (by omega)

theorem Filled.start (h : Filled prior T numBits bitmap)
    (hstart : numBits ≤ 2 ^ 32 - 32 ∨ high < 2 ^ 32 ∧ ∀ t, T t → 2 ^ 32 - 32 ≤ t) :
    numBits ≤ 2 ^ 32 - 32 ∨ high < 2 ^ 32 ∧ ∀ i < 2 ^ 32 - 32, bitSet bitmap i = false := by
  by_cases hsmall : numBits ≤ 2 ^ 32 - 32
  · exact .inl hsmall
  obtain ⟨hhigh, hfew⟩ := hstart.resolve_left hsmall
  refine .inr ⟨hhigh, fun i hi => ?_⟩
  rw [Bool.eq_false_iff, ne_eq, h.below i (by omega)]
  rintro (hT | ⟨⟨⟨⟨t, hT, hlt⟩, -⟩, -⟩, -⟩)
  · have := hfew i hT
    omega
  · have := hfew t hT
    omega

theorem Filled.fill_below (h : Filled prior T numBits bitmap) (hle : low ≤ high)
    (hnum : numBits ≤ low)
    (hstart : numBits ≤ 2 ^ 32 - 32 ∨ high < 2 ^ 32 ∧ ∀ t, T t → 2 ^ 32 - 32 ≤ t) (i : Nat)
    (hi : i < high + 1) :
    bitSet (filledArray low high bitmap numBits) i = true ↔
      withRange T low high i ∨ (Exposed (withRange T low high) i ∧ bitSet prior i = true) := by
  have hbound := h.bound
  rw [filledArray_bits hle hnum (h.start hstart)]
  by_cases hn : i < numBits
  · rw [if_pos hn, h.below i hn, withRange_iff (by omega)]
    refine or_congr_right (and_congr_left fun _ => ?_)
    -- In the last word both sides are false: a filled offset follows.
    have hlast := h.last (by omega)
    unfold Exposed
    rw [h.fresh_iff hnum (by omega)]
    by_cases hsame : (numBits - 1) / 32 = i / 32
    · constructor
      · rintro ⟨-, -, hall⟩
        have := hall _ hlast hsame
        omega
      · rintro ⟨-, -, hall⟩
        have := hall _ (.inl hlast) hsame
        omega
    · refine and_congr_right fun _ => and_congr ?_ ?_
      · refine exists_congr fun j => and_congr_left fun hj => (withRange_iff ?_).symm
        omega
      · refine forall_congr' fun j => ⟨fun hall hT hj => ?_, fun hall hT hj => hall (.inl hT) hj⟩
        exact hall ((withRange_iff (by omega)).mp hT) hj
  · rw [if_neg hn]
    by_cases hl : i < low
    · rw [if_pos hl, withRange_iff hl]
      have hnot : ¬ T i := fun hT => hn (hbound i hT)
      simp only [hnot, false_or, Bool.and_eq_true, decide_eq_true_eq]
      by_cases htail : 0 < numBits ∧ i / 32 = (numBits - 1) / 32 ∧ i / 32 < low / 32
      · obtain ⟨hpos, hsame, hword⟩ := htail
        simp only [hpos, hsame, true_and]
        rw [show (numBits - 1) / 32 < low / 32 ↔ True by simp only [iff_true]; omega, true_and,
          h.tail hpos i (by omega) hsame]
        refine and_congr_left fun _ => ?_
        unfold Exposed
        rw [h.fresh_iff hnum (by omega)]
        refine ⟨fun hf => ⟨hf, ⟨numBits - 1, .inl (h.last hpos), by omega⟩, ?_⟩, fun hx => hx.1⟩
        intro j hj hsame'
        have := hbound j ((withRange_iff (by omega)).mp hj)
        omega
      · simp only [htail, false_and, false_iff, not_and]
        rintro ⟨-, ⟨j, hj, hsame⟩, hall⟩ -
        rcases hj with hj | hj
        · have h₁ := hbound j hj
          have h₃ : (numBits - 1) / 32 = i / 32 := by omega
          by_cases hword : i / 32 < low / 32
          · exact htail ⟨by omega, h₃.symm, hword⟩
          · have := hall low (.inr ⟨le_rfl, hle⟩) (by omega)
            omega
        · have := hall low (.inr ⟨le_rfl, hle⟩) (by omega)
          omega
    · rw [if_neg hl, if_pos (by omega)]
      simp only [true_iff]
      exact .inl (.inr ⟨by omega, by omega⟩)

theorem Filled.fill (h : Filled prior T numBits bitmap) (hle : low ≤ high)
    (hnum : numBits < low ∨ numBits = 0)
    (hstart : numBits ≤ 2 ^ 32 - 32 ∨ high < 2 ^ 32 ∧ ∀ t, T t → 2 ^ 32 - 32 ≤ t) :
    Filled prior (withRange T low high) (high + 1) (filledArray low high bitmap numBits) := by
  have hbound := h.bound
  have hnum' : numBits ≤ low := by omega
  constructor
  · exact h.fill_below hle hnum' hstart
  · intro _ i hi hsame
    rw [filledArray_bits hle hnum' (h.start hstart), if_neg (by omega), if_neg (by omega), if_neg (by omega),
      if_pos (by omega)]
    rw [Bool.and_eq_true, decide_eq_true_eq]
    by_cases hspan : high / 32 = low / 32
    · by_cases hpos : 0 < numBits
      · simp only [hpos, hspan, and_self, true_and]
        by_cases hword : i / 32 = (numBits - 1) / 32
        · rw [h.tail hpos i (by omega) hword, h.fresh_iff hnum' (by omega)]
        · rw [h.above i fun _ => by omega]
          refine ⟨fun hp => ⟨⟨⟨numBits - 1, .inl (h.last hpos), by omega⟩, ?_⟩, hp⟩, fun hf => hf.2⟩
          rintro ⟨hbefore | hbefore, hfirst | hfirst⟩
          · have := hbound _ hfirst
            omega
          · have := hbound _ hbefore
            omega
          · omega
          · omega
      · have hnone : ∀ t, ¬ T t := fun t hT => by have := hbound t hT; omega
        simp only [hpos, false_and, false_iff, not_and]
        rintro ⟨⟨t, hT | hT, ht⟩, -⟩ -
        · exact hnone t hT
        · omega
    · simp only [hspan, and_false, false_and, false_iff, not_and]
      rintro ⟨-, hf⟩ -
      exact hf ⟨.inr ⟨by omega, by omega⟩, .inr ⟨by omega, by omega⟩⟩
  · intro i hi
    rw [filledArray_bits hle hnum' (h.start hstart), if_neg (by omega), if_neg (by omega), if_neg (by omega),
      if_neg (by omega)]
    exact h.above i fun _ => by omega
  · intro _
    exact .inr ⟨by omega, by omega⟩
  · rintro t (hT | hT)
    · have := hbound t hT
      omega
    · omega

end

section

/-- The offsets that `to_bitmap` fills, from neighbouring ranges. -/
def offsets (base : Int) (invert : Bool) : List Range → List (Nat × Nat)
  | prev :: it :: rest =>
    (toULong (if invert then prev.2 + 1 - base else it.1 - base),
      toULong (if invert then it.1 - 1 - base else it.2 - base)) :: offsets base invert (it :: rest)
  | _ => []

/-- Filling ranges of offsets one after the other, up to the first that does not fit. -/
def fillRanges (length : Nat) : List (Nat × Nat) → Bitmap → Nat → Bool × Bitmap × Nat
  | [], bitmap, numBits => (true, bitmap, numBits)
  | f :: rest, bitmap, numBits =>
    match fillBitmapRange f.1 f.2 bitmap length numBits with
    | (false, bitmap, numBits) => (false, bitmap, numBits)
    | (true, bitmap, numBits) => fillRanges length rest bitmap numBits

theorem toBitmapLoop_eq (base : Int) (length : Nat) (invert : Bool) (rs : List Range)
    (bitmap : Bitmap) (numBits : Nat) :
    toBitmapLoop base length invert rs bitmap numBits =
      fillRanges length (offsets base invert rs) bitmap numBits := by
  induction rs generalizing bitmap numBits with
  | nil => rfl
  | cons prev rest ih =>
    cases rest with
    | nil => rfl
    | cons it rest =>
      unfold toBitmapLoop offsets fillRanges
      dsimp only
      generalize fillBitmapRange _ _ bitmap length numBits = filled
      obtain ⟨ok, bitmap', numBits'⟩ := filled
      cases ok with
      | false => rfl
      | true => exact ih bitmap' numBits'

theorem fillRanges_append (length : Nat) (fs gs : List (Nat × Nat)) (bitmap : Bitmap) (numBits : Nat)
    (h : (fillRanges length fs bitmap numBits).1 = false) :
    fillRanges length (fs ++ gs) bitmap numBits = fillRanges length fs bitmap numBits := by
  induction fs generalizing bitmap numBits with
  | nil => cases h
  | cons f rest ih =>
    rw [List.cons_append]
    simp only [fillRanges] at h ⊢
    generalize fillBitmapRange f.1 f.2 bitmap length numBits = filled at *
    obtain ⟨ok, bitmap', numBits'⟩ := filled
    cases ok with
    | false => rfl
    | true => exact ih bitmap' numBits' h

theorem offsets_append (base : Int) (invert : Bool) (front back : List Range) (q : Range) :
    offsets base invert (front ++ q :: back) =
      offsets base invert (front ++ [q]) ++ offsets base invert (q :: back) := by
  induction front with
  | nil => cases back <;> rfl
  | cons prev rest ih =>
    cases rest with
    | nil => simp [offsets]
    | cons it rest => simpa [offsets] using ih

/-- Ranges of offsets in ascending order, with a gap between neighbours. -/
structure Ascending (fs : List (Nat × Nat)) : Prop where
  nonempty : ∀ f ∈ fs, f.1 ≤ f.2
  separated : fs.Pairwise fun a b => a.2 + 1 < b.1

theorem Ascending.cons {f : Nat × Nat} {fs : List (Nat × Nat)} (h : Ascending (f :: fs)) :
    f.1 ≤ f.2 ∧ (∀ g ∈ fs, f.2 + 1 < g.1) ∧ Ascending fs := by
  have hpair := List.pairwise_cons.mp h.separated
  exact ⟨h.nonempty f (by simp), hpair.1, fun g hg => h.nonempty g (by simp [hg]), hpair.2⟩

def Offset (fs : List (Nat × Nat)) (t : Nat) : Prop := ∃ f ∈ fs, f.1 ≤ t ∧ t ≤ f.2

theorem offset_cons {f : Nat × Nat} {fs : List (Nat × Nat)} {t : Nat} :
    Offset (f :: fs) t ↔ (f.1 ≤ t ∧ t ≤ f.2) ∨ Offset fs t := by
  simp [Offset]

theorem Filled.congr {prior bitmap : Bitmap} {T T' : Nat → Prop} {numBits : Nat}
    (h : Filled prior T numBits bitmap) (heq : ∀ t, T t ↔ T' t) : Filled prior T' numBits bitmap := by
  obtain rfl : T = T' := funext fun t => propext (heq t)
  exact h

/-- The bits below `numBits` are the offsets if and only if the array held no ones at the
positions that are left as they were. -/
theorem Filled.exact_iff {prior bitmap : Bitmap} {T : Nat → Prop} {numBits : Nat}
    (h : Filled prior T numBits bitmap) :
    (∀ i < numBits, (bitSet bitmap i = true ↔ T i)) ↔
      ∀ i, Exposed T i → (∃ t, T t ∧ i < t) → bitSet prior i = false := by
  constructor
  · rintro hbits i hexp ⟨t, ht, hlt⟩
    have hi : i < numBits := by
      have := h.bound t ht
      omega
    have hiff := (h.below i hi).symm.trans (hbits i hi)
    by_contra hprior
    have hin : T i := hiff.mp (.inr ⟨hexp, by simpa using hprior⟩)
    exact absurd (hexp.2.2 i hin rfl) (lt_irrefl i)
  · intro hclean i hi
    rw [h.below i hi]
    refine or_iff_left ?_
    rintro ⟨hexp, hprior⟩
    have hlast := h.last (by omega)
    have hne : i ≠ numBits - 1 := by
      rintro rfl
      exact absurd (hexp.2.2 _ hlast rfl) (lt_irrefl _)
    rw [hclean i hexp ⟨numBits - 1, hlast, by omega⟩] at hprior
    cases hprior

/-- Two offsets of the last word that a `CORBA::ULong` counts, with a gap between them: behind
the first one the count of full words wraps to zero. -/
def Wraps (T : Nat → Prop) : Prop :=
  ∃ t i t', 2 ^ 32 - 32 ≤ t ∧ t < i ∧ i < t' ∧ T t ∧ ¬ T i ∧ T t'

/-- The fill behind the wrap clears all words in front of the last one, and no offset is there. -/
def NothingWiped (T : Nat → Prop) : Prop := Wraps T → ∀ t, T t → 2 ^ 32 - 32 ≤ t

theorem fillRanges_spec {prior bitmap : Bitmap} {T : Nat → Prop} {numBits length : Nat}
    (fs : List (Nat × Nat)) (hfs : Ascending fs) (h : Filled prior T numBits bitmap)
    (hnum : numBits = 0 ∨ ∀ f ∈ fs, numBits < f.1) (hlen : numBits ≤ 32 * length)
    (hcount : ∀ t, Offset fs t → t < 32 * length → t < 2 ^ 32 - 1)
    (hwiped : NothingWiped fun t => T t ∨ (Offset fs t ∧ t < 32 * length)) :
    ∃ ok bitmap' numBits', fillRanges length fs bitmap numBits = (ok, bitmap', numBits') ∧
      Filled prior (fun t => T t ∨ (Offset fs t ∧ t < 32 * length)) numBits' bitmap' ∧
      numBits' ≤ 32 * length ∧ (ok = true ↔ ∀ t, Offset fs t → t < 32 * length) := by
  induction fs generalizing T bitmap numBits with
  | nil =>
    refine ⟨true, bitmap, numBits, rfl, h.congr fun t => ?_, hlen, ?_⟩
    · simp [Offset]
    · simp [Offset]
  | cons f rest ih =>
    obtain ⟨hle, hgap, hrest⟩ := hfs.cons
    have hafter : ∀ t, Offset rest t → f.2 < t := by
      rintro t ⟨g, hg, hlow, -⟩
      have := hgap g hg
      omega
    unfold fillRanges
    by_cases hin : f.1 / 32 < length
    · have hclamped : clampTo f.2 length < 2 ^ 32 - 1 := by
        have hend : f.1 ≤ clampTo f.2 length ∧ clampTo f.2 length ≤ f.2 ∧
            clampTo f.2 length < 32 * length := by
          unfold clampTo
          omega
        exact hcount _ (offset_cons.mpr (.inl ⟨hend.1, hend.2.1⟩)) hend.2.2
      have hstart : numBits ≤ 2 ^ 32 - 32 ∨ clampTo f.2 length < 2 ^ 32 ∧
          ∀ t, T t → 2 ^ 32 - 32 ≤ t := by
        by_cases hsmall : numBits ≤ 2 ^ 32 - 32
        · exact .inl hsmall
        have hbefore : numBits < f.1 := by
          have hafter := hnum.resolve_left (by omega)
          exact hafter f (by simp)
        -- the offset in front of `numBits` and the first one of `f` have `numBits` between them
        have hwraps : Wraps fun t => T t ∨ (Offset (f :: rest) t ∧ t < 32 * length) := by
          refine ⟨numBits - 1, numBits, f.1, by omega, by omega, hbefore,
            Or.inl (h.last (by omega)), ?_, .inr ⟨offset_cons.mpr (.inl ⟨le_rfl, hle⟩), by omega⟩⟩
          rintro (hT | ⟨hT, -⟩)
          · exact absurd (h.bound _ hT) (lt_irrefl _)
          · rcases offset_cons.mp hT with hT | hT
            · omega
            · have := hafter _ hT
              omega
        exact .inr ⟨by omega, fun t hT => hwiped hwraps t (.inl hT)⟩
      rw [fillBitmapRange_eq hin hclamped]
      have hfill : Filled prior (withRange T f.1 (clampTo f.2 length)) (clampTo f.2 length + 1)
          (filledArray f.1 (clampTo f.2 length) bitmap numBits) :=
        h.fill (by unfold clampTo; omega) (hnum.symm.imp_left fun hn => hn f (by simp)) hstart
      by_cases hend : f.2 < 32 * length
      · -- The whole range fits, and the loop goes on.
        have hclamp : clampTo f.2 length = f.2 := by
          unfold clampTo
          omega
        rw [hclamp] at hfill ⊢
        have hsame : ∀ t, withRange T f.1 f.2 t ∨ (Offset rest t ∧ t < 32 * length) ↔
            T t ∨ (Offset (f :: rest) t ∧ t < 32 * length) := by
          intro t
          rw [offset_cons]
          constructor
          · rintro ((hT | hT) | hT)
            · exact .inl hT
            · exact .inr ⟨.inl hT, by omega⟩
            · exact .inr ⟨.inr hT.1, hT.2⟩
          · rintro (hT | ⟨hT | hT, hlt⟩)
            · exact .inl (.inl hT)
            · exact .inl (.inr hT)
            · exact .inr ⟨hT, hlt⟩
        have hwiped' : NothingWiped fun t =>
            withRange T f.1 f.2 t ∨ (Offset rest t ∧ t < 32 * length) := by
          rwa [funext fun t => propext (hsame t)]
        obtain ⟨ok, bitmap', numBits', heq, hfilled, hlen', hok⟩ := ih hrest hfill
          (.inr fun g hg => hgap g hg) (by omega)
          (fun t ht => hcount t (offset_cons.mpr (.inr ht))) hwiped'
        refine ⟨ok, bitmap', numBits', by simp only [hend, decide_true, heq], ?_, hlen', ?_⟩
        · exact hfilled.congr hsame
        · rw [hok]
          constructor
          · intro hall t ht
            rcases offset_cons.mp ht with ht | ht
            · omega
            · exact hall t ht
          · exact fun hall t ht => hall t (offset_cons.mpr (.inr ht))
      · have hclamp : clampTo f.2 length = 32 * length - 1 := by
          unfold clampTo
          omega
        rw [hclamp] at hfill ⊢
        refine ⟨false, filledArray f.1 (32 * length - 1) bitmap numBits, 32 * length - 1 + 1,
          by simp [hend], ?_, by omega, ?_⟩
        · refine hfill.congr fun t => ?_
          rw [offset_cons]
          refine or_congr_right ⟨fun ht => ⟨.inl (by omega), by omega⟩, ?_⟩
          rintro ⟨ht | ht, hlt⟩
          · omega
          · have := hafter t ht
            omega
        · simp only [Bool.false_eq_true, false_iff]
          intro hall
          exact hend (hall f.2 (offset_cons.mpr (.inl ⟨hle, le_rfl⟩)))
    · rw [fillBitmapRange_beyond (by omega)]
      refine ⟨false, bitmap, numBits, rfl, h.congr fun t => ?_, hlen, ?_⟩
      · have hnone : ¬ (Offset (f :: rest) t ∧ t < 32 * length) := by
          rintro ⟨ht, hlt⟩
          rcases offset_cons.mp ht with ht | ht
          · omega
          · have := hafter t ht
            omega
        simp only [hnone, or_false]
      · simp only [Bool.false_eq_true, false_iff]
        intro hall
        have := hall f.2 (offset_cons.mpr (.inl ⟨hle, le_rfl⟩))
        omega

theorem fillRanges_clear {length : Nat} {bitmap : Bitmap} {numBits : Nat} (fs : List (Nat × Nat))
    (hfs : Ascending fs) (hlow : ∀ f ∈ fs, 2 ^ 32 - 32 ≤ f.1)
    (hclear : ∀ j < 2 ^ 32 - 32, bitSet bitmap j = false) :
    ∀ j < 2 ^ 32 - 32, bitSet (fillRanges length fs bitmap numBits).2.1 j = false := by
  induction fs generalizing bitmap numBits with
  | nil => exact hclear
  | cons f rest ih =>
    obtain ⟨hle, -, hrest⟩ := hfs.cons
    have hf := hlow f (by simp)
    unfold fillRanges
    by_cases hin : f.1 / 32 < length
    · rw [fillBitmapRange_mod hin]
      have hafter : ∀ j < 2 ^ 32 - 32,
          bitSet (filledArray f.1 (clampTo f.2 length) bitmap numBits) j = false := by
        intro j hj
        rw [filledArray_front (by unfold clampTo; omega) (by omega), hclear j hj, ite_self]
      cases decide (f.2 < 32 * length) with
      | false => exact hafter
      | true => exact ih hrest (fun g hg => hlow g (by simp [hg])) hafter
    · rw [fillBitmapRange_beyond (by omega)]
      exact hclear

theorem fillRanges_wiped {length : Nat} {bitmap : Bitmap} {numBits t i t' : Nat}
    (fs : List (Nat × Nat)) (hfs : Ascending fs) (hlast : 2 ^ 32 - 32 ≤ t) (hti : t < i) (hit : i < t')
    (hin : t' < 32 * length) (hcount : t' < 2 ^ 32) (ht : Offset fs t) (hi : ¬ Offset fs i)
    (ht' : Offset fs t') :
    ∀ j < 2 ^ 32 - 32, bitSet (fillRanges length fs bitmap numBits).2.1 j = false := by
  induction fs generalizing bitmap numBits with
  | nil =>
    obtain ⟨f, hf, -⟩ := ht
    cases hf
  | cons f rest ih =>
    obtain ⟨hle, hgap, hrest⟩ := hfs.cons
    rw [offset_cons] at ht hi ht'
    obtain ⟨hout, hi⟩ := not_or.mp hi
    have hfirst : f.1 ≤ t := by
      rcases ht with ht | ⟨g, hg, hlow, -⟩
      · exact ht.1
      · have := hgap g hg
        omega
    replace ht' : Offset rest t' := by
      refine ht'.resolve_left fun hmem => ?_
      omega
    have hend : f.2 < i := by omega
    have hclamp : clampTo f.2 length = f.2 := by
      unfold clampTo
      omega
    have hok : f.2 < 32 * length := by omega
    unfold fillRanges
    rw [fillBitmapRange_eq (by omega) (by omega), hclamp, decide_eq_true hok]
    dsimp only
    rcases ht with ht | ht
    · -- The next fill starts with a count of words that has wrapped.
      cases rest with
      | nil =>
        obtain ⟨g, hg, -⟩ := ht'
        cases hg
      | cons g rest =>
        have hg := hgap g (by simp)
        obtain ⟨hgle, hggap, hgrest⟩ := hrest.cons
        have hgt : g.1 ≤ t' := by
          rcases offset_cons.mp ht' with hmem | ⟨x, hx, hlow, -⟩
          · exact hmem.1
          · have := hggap x hx
            omega
        unfold fillRanges
        rw [fillBitmapRange_mod (by omega)]
        have hcleared : ∀ j < 2 ^ 32 - 32, bitSet (filledArray g.1 (clampTo g.2 length)
            (filledArray f.1 f.2 bitmap numBits) (f.2 + 1)) j = false := by
          intro j hj
          rw [filledArray_front (by unfold clampTo; omega) (by omega), if_pos (by omega)]
        cases decide (g.2 < 32 * length) with
        | false => exact hcleared
        | true =>
          refine fillRanges_clear rest hgrest (fun x hx => ?_) hcleared
          have := hggap x hx
          omega
    · exact ih hrest ht hi ht'

end

section

theorem toULong_eq {v : Int} (h : 0 ≤ v) (hlt : v < 2 ^ 32) : (toULong v : Int) = v := by
  unfold toULong
  omega

theorem high_cons_cons (a b : Range) (rs : List Range) : high (a :: b :: rs) = high (b :: rs) := by
  simp [high]

theorem high_concat (init : List Range) (q : Range) : high (init ++ [q]) = q.2 := by
  simp [high]

/-- The numbers above the first range that are in the set, or missing up to its highest. -/
def Wanted (invert : Bool) (seqs : List Range) (n : Int) : Prop :=
  if invert then ¬ Covers seqs n ∧ n ≤ high seqs else Covers seqs n

theorem offsets_spec {base : Int} (invert : Bool) (prev : Range) (rest : List Range)
    (hc : Canonical (prev :: rest)) (hbase : base ≤ prev.2 + 1)
    (hsize : ∀ r ∈ rest, (if invert then r.1 - 1 else r.2) - base < 2 ^ 32) :
    Ascending (offsets base invert (prev :: rest)) ∧
      ∀ t : Nat, Offset (offsets base invert (prev :: rest)) t ↔
        prev.2 < base + t ∧ Wanted invert (prev :: rest) (base + t) := by
  induction rest generalizing prev with
  | nil =>
    refine ⟨⟨by simp [offsets], List.Pairwise.nil⟩, fun t => ?_⟩
    have hnone : ¬ Offset (offsets base invert [prev]) t := by simp [Offset, offsets]
    simp only [hnone, false_iff, not_and]
    intro hlt hwant
    unfold Wanted at hwant
    cases invert with
    | true =>
      have hhigh : high [prev] = prev.2 := rfl
      simp only [if_true] at hwant
      omega
    | false =>
      simp only [Bool.false_eq_true, if_false, covers_cons, covers_nil, or_false] at hwant
      omega
  | cons it rest ih =>
    obtain ⟨hne, hgap, hcr⟩ := canonical_cons.mp hc
    have hitgap := hgap it (by simp)
    have hitne := hcr.nonempty it (by simp)
    have hitsize := hsize it (by simp)
    obtain ⟨hasc, hoff⟩ := ih it hcr (by omega) fun r hr => hsize r (by simp [hr])
    have hhigh : it.2 ≤ high (it :: rest) := le_high hcr ⟨it, by simp, hitne, le_rfl⟩
    have hrest : ∀ n, Covers rest n → it.2 + 1 < n := by
      rintro n ⟨x, hx, hlow, -⟩
      have := hcr.head_lt hx
      omega
    have hlater : ∀ g ∈ offsets base invert (it :: rest), it.2 < base + g.1 := by
      intro g hg
      exact ((hoff g.1).mp ⟨g, hg, le_rfl, hasc.nonempty g hg⟩).1
    cases invert with
    | true =>
      have hlow := toULong_eq (show 0 ≤ prev.2 + 1 - base by omega) (by omega)
      have hend := toULong_eq (show 0 ≤ it.1 - 1 - base by omega) (by omega)
      simp only [offsets, if_true]
      refine ⟨⟨?_, List.pairwise_cons.mpr ⟨?_, hasc.separated⟩⟩, fun t => ?_⟩
      · intro f hf
        rcases List.mem_cons.mp hf with rfl | hf
        · omega
        · exact hasc.nonempty f hf
      · intro g hg
        have := hlater g hg
        omega
      · rw [offset_cons, hoff t]
        simp only [Wanted, if_true, covers_cons, high_cons_cons]
        by_cases hr : Covers rest (base + t)
        · have := hrest _ hr
          simp only [hr, or_true, not_true_eq_false, false_and, and_false, or_false, iff_false]
          omega
        · simp only [hr, or_false]
          omega
    | false =>
      simp only [Bool.false_eq_true, if_false] at hitsize
      have hlow := toULong_eq (show 0 ≤ it.1 - base by omega) (by omega)
      have hend := toULong_eq (show 0 ≤ it.2 - base by omega) (by omega)
      simp only [offsets, Bool.false_eq_true, if_false]
      refine ⟨⟨?_, List.pairwise_cons.mpr ⟨?_, hasc.separated⟩⟩, fun t => ?_⟩
      · intro f hf
        rcases List.mem_cons.mp hf with rfl | hf
        · omega
        · exact hasc.nonempty f hf
      · intro g hg
        have hwant := (hoff g.1).mp ⟨g, hg, le_rfl, hasc.nonempty g hg⟩
        have hcov : Covers (it :: rest) (base + g.1) := by simpa [Wanted] using hwant.2
        rcases (covers_cons _ _ _).mp hcov with h | h
        · omega
        · have := hrest _ h
          omega
      · rw [offset_cons, hoff t]
        simp only [Wanted, Bool.false_eq_true, if_false, covers_cons]
        by_cases hr : Covers rest (base + t)
        · have := hrest _ hr
          simp only [hr, or_true, and_true]
          omega
        · simp only [hr, or_false]
          omega

/-- The offsets above `cumulative_ack()` that fit into an array of `length` words. -/
def WantedOffset (invert : Bool) (seqs : List Range) (length t : Nat) : Prop :=
  Wanted invert seqs (cumulativeAck seqs + 1 + t) ∧ t < 32 * length

section

variable (prior : Bitmap) (length : Nat) (invert : Bool)

theorem toBitmap_eq {seqs : List Range} (wf : WellFormed seqs) (hne : seqs ≠ []) :
    toBitmap seqs prior length invert =
      fillRanges length (offsets (cumulativeAck seqs + 1) invert seqs) prior 0 := by
  cases seqs with
  | nil => exact absurd rfl hne
  | cons first rest =>
    unfold toBitmap
    rw [cumulativeAck_cons]
    -- Only a set of one range can end at the largest number.
    cases rest with
    | nil => rfl
    | cons it rest =>
      have h₁ := wf.canonical.head_lt (show it ∈ it :: rest by simp)
      have h₂ := wf.canonical.nonempty it (by simp)
      have h₃ := (wf.within it (by simp)).2
      rw [next_of_lt (by omega), toBitmapLoop_eq]

omit prior in
theorem wanted_offsets {first : Range} {rest : List Range} (wf : WellFormed (first :: rest))
    (hsize : ∀ r ∈ first :: rest, (if invert then r.1 - 1 else r.2) - (first.2 + 1) < 2 ^ 32) :
    Ascending (offsets (first.2 + 1) invert (first :: rest)) ∧
      (∀ t : Nat, Offset (offsets (first.2 + 1) invert (first :: rest)) t ↔
        Wanted invert (first :: rest) (first.2 + 1 + t)) ∧
      ∀ t : Nat, Offset (offsets (first.2 + 1) invert (first :: rest)) t ∧ t < 32 * length ↔
        WantedOffset invert (first :: rest) length t := by
  obtain ⟨hasc, hoff⟩ := offsets_spec invert first rest wf.canonical le_rfl
    fun r hr => hsize r (by simp [hr])
  have hwant : ∀ t : Nat, Offset (offsets (first.2 + 1) invert (first :: rest)) t ↔
      Wanted invert (first :: rest) (first.2 + 1 + t) := by
    intro t
    rw [hoff t]
    exact and_iff_right (by omega)
  refine ⟨hasc, hwant, fun t => ?_⟩
  unfold WantedOffset
  rw [hwant, cumulativeAck_cons]

/-- `to_bitmap` fills the wanted offsets, and says whether all of them fit, if no offset is cut
off and no word is wiped. -/
theorem toBitmap_offsets {seqs : List Range} (wf : WellFormed seqs) (hne : seqs ≠ [])
    (hsize : ∀ r ∈ seqs, (if invert then r.1 - 1 else r.2) - (cumulativeAck seqs + 1) < 2 ^ 32)
    (hcount : ∀ t, WantedOffset invert seqs length t → t < 2 ^ 32 - 1)
    (hwiped : NothingWiped (WantedOffset invert seqs length)) :
    ∃ ok bitmap numBits, toBitmap seqs prior length invert = (ok, bitmap, numBits) ∧
      Filled prior (WantedOffset invert seqs length) numBits bitmap ∧ numBits ≤ 32 * length ∧
      (ok = true ↔
        ∀ t : Nat, Wanted invert seqs (cumulativeAck seqs + 1 + t) → t < 32 * length) := by
  have hloop := toBitmap_eq prior length invert wf hne
  cases seqs with
  | nil => exact absurd rfl hne
  | cons first rest =>
    rw [cumulativeAck_cons] at hsize hloop ⊢
    obtain ⟨hasc, hwant, hfits⟩ := wanted_offsets length invert wf hsize
    obtain ⟨ok, bitmap, numBits, heq, hfilled, hlen, hok⟩ := fillRanges_spec
      (offsets (first.2 + 1) invert (first :: rest)) hasc (filled_start prior) (.inl rfl)
      (Nat.zero_le (32 * length)) (fun t ht hlt => hcount t ((hfits t).mp ⟨ht, hlt⟩))
      (by simpa only [false_or, hfits] using hwiped)
    refine ⟨ok, bitmap, numBits, hloop.trans heq, hfilled.congr fun t => ?_, hlen, ?_⟩
    · rw [hfits, false_or]
    · rw [hok]
      simp only [hwant]

theorem toBitmap_wiped {seqs : List Range} (wf : WellFormed seqs) (hne : seqs ≠ [])
    (hsize : ∀ r ∈ seqs, (if invert then r.1 - 1 else r.2) - (cumulativeAck seqs + 1) < 2 ^ 32)
    (hcount : ∀ t, WantedOffset invert seqs length t → t < 2 ^ 32 - 1)
    (hwraps : Wraps (WantedOffset invert seqs length)) :
    ∀ j < 2 ^ 32 - 32, bitSet (toBitmap seqs prior length invert).2.1 j = false := by
  rw [toBitmap_eq prior length invert wf hne]
  obtain ⟨t, i, t', hlast, hti, hit, ht, hi, ht'⟩ := hwraps
  have hsmall := hcount t' ht'
  cases seqs with
  | nil => exact absurd rfl hne
  | cons first rest =>
    obtain ⟨hasc, -, hfits⟩ := wanted_offsets length invert wf hsize
    have hin : t' < 32 * length := ((hfits t').mpr ht').2
    rw [← hfits] at ht hi ht'
    exact fillRanges_wiped _ hasc hlast hti hit hin (by omega) ht.1
      (fun hmem => hi ⟨hmem, by omega⟩) ht'.1

omit prior in
theorem WantedOffset.lt_high {seqs : List Range} {t : Nat} (wf : WellFormed seqs)
    (h : WantedOffset invert seqs length t) : cumulativeAck seqs + t < high seqs := by
  obtain ⟨hwanted, -⟩ := h
  have hle : cumulativeAck seqs + 1 + t ≤ high seqs := by
    cases invert with
    | true => exact hwanted.2
    | false => exact le_high wf.canonical (by simpa [Wanted] using hwanted)
  omega

omit prior in
theorem nothingWiped {seqs : List Range} (hlen : 32 * length ≤ 2 ^ 32 - 32) :
    NothingWiped (WantedOffset invert seqs length) := by
  rintro ⟨t, i, t', hlast, -, -, ⟨-, hlt⟩, -⟩
  omega

theorem toBitmap_filled {seqs : List Range} (wf : WellFormed seqs) (hne : seqs ≠ [])
    (hsize : high seqs - cumulativeAck seqs < 2 ^ 32)
    (hwiped : NothingWiped (WantedOffset invert seqs length)) :
    ∃ ok bitmap numBits, toBitmap seqs prior length invert = (ok, bitmap, numBits) ∧
      Filled prior (WantedOffset invert seqs length) numBits bitmap ∧ numBits ≤ 32 * length ∧
      (ok = true ↔
        ∀ t : Nat, Wanted invert seqs (cumulativeAck seqs + 1 + t) → t < 32 * length) := by
  refine toBitmap_offsets prior length invert wf hne (fun r hr => ?_) (fun t ht => ?_) hwiped
  · have hle := wf.canonical.nonempty r hr
    have hhigh := le_high wf.canonical ⟨r, hr, hle, le_rfl⟩
    split <;> omega
  · have := ht.lt_high length invert wf
    omega

end

theorem toBitmap_missing {seqs : List Range} (prior : Bitmap) {length : Nat} (hlen : length ≤ 8)
    (wf : WellFormed seqs) (hne : seqs ≠ [])
    (hcasts : ∀ r ∈ seqs, cumulativeAck seqs + 1 + 2 ^ 32 < r.1 →
      ∃ q ∈ seqs, cumulativeAck seqs + 257 < q.1 ∧ q.1 ≤ cumulativeAck seqs + 1 + 2 ^ 32) :
    ∃ ok bitmap numBits, toBitmap seqs prior length true = (ok, bitmap, numBits) ∧
      Filled prior (WantedOffset true seqs length) numBits bitmap ∧ numBits ≤ 32 * length := by
  have hcount : ∀ {seqs : List Range} (t : Nat), WantedOffset true seqs length t → t < 2 ^ 32 - 1 :=
    fun t ht => by
      have := ht.2
      omega
  by_cases hall : ∀ r ∈ seqs, r.1 ≤ cumulativeAck seqs + 1 + 2 ^ 32
  · obtain ⟨ok, bitmap, numBits, heq, hfilled, hbound, -⟩ :=
      toBitmap_offsets prior length true wf hne (fun r hr => by
        have := hall r hr
        simp only [if_true]
        omega) hcount (nothingWiped length true (by omega))
    exact ⟨ok, bitmap, numBits, heq, hfilled, hbound⟩
  · simp only [not_forall, not_le] at hall
    obtain ⟨r, hr, hfar⟩ := hall
    obtain ⟨q, hq, hlow, hhigh⟩ := hcasts r hr hfar
    obtain ⟨front, back, rfl⟩ := List.append_of_mem hq
    cases front with
    | nil =>
      have := wf.canonical.nonempty q (by simp)
      simp only [List.nil_append, cumulativeAck_cons] at hlow
      omega
    | cons first front =>
      obtain ⟨hcf, hcb, hcross⟩ := canonical_append.mp wf.canonical
      have hback : ∀ x ∈ back, q.2 + 1 < x.1 := fun x hx => hcb.head_lt hx
      have hqle := hcb.nonempty q (by simp)
      have hcut : WellFormed (first :: front ++ [q]) := by
        have hcq : Canonical [q] := (canonical_append.mp (show Canonical ([q] ++ back) from hcb)).1
        refine ⟨canonical_append.mpr ⟨hcf, hcq, ?_⟩, fun x hx => wf.within x ?_⟩
        · intro a ha b hb
          rw [List.mem_singleton.mp hb]
          exact hcross a ha q (by simp)
        · rcases List.mem_append.mp hx with hx | hx
          · exact List.mem_append_left _ hx
          · rw [List.mem_singleton.mp hx]
            exact hq
      have hack : cumulativeAck (first :: front ++ [q]) = cumulativeAck (first :: front ++ q :: back) :=
        rfl
      have hhighq : high (first :: front ++ [q]) = q.2 := high_concat _ _
      obtain ⟨ok, bitmap, numBits, heq, hfilled, hbound, hok⟩ :=
        toBitmap_offsets prior length true hcut (by simp) (fun x hx => by
          have hxq : x.1 ≤ q.1 := by
            rcases List.mem_append.mp hx with hx | hx
            · have h₁ := hcross x hx q (by simp)
              have h₂ := hcf.nonempty x hx
              omega
            · rw [List.mem_singleton.mp hx]
          simp only [if_true]
          omega) hcount (nothingWiped length true (by omega))
      -- The gap in front of `q` does not fit.
      have hstop : ok = false := by
        by_contra hne'
        have hfits := hok.mp (by simpa using hne') (q.1 - 1 - (cumulativeAck (first :: front ++ [q]) + 1)).toNat
        have hwant : Wanted true (first :: front ++ [q]) (q.1 - 1) := by
          refine ⟨(hcut.canonical.maximalRun (show q ∈ first :: front ++ [q] by simp)).before, ?_⟩
          omega
        rw [show cumulativeAck (first :: front ++ [q]) + 1 +
          ((q.1 - 1 - (cumulativeAck (first :: front ++ [q]) + 1)).toNat : Int) = q.1 - 1 by omega] at hfits
        have := hfits hwant
        omega
      subst hstop
      refine ⟨false, bitmap, numBits, ?_, hfilled.congr fun t => ?_, hbound⟩
      · rw [toBitmap_eq prior length true wf hne, offsets_append, ← hack, fillRanges_append]
        · rw [← toBitmap_eq prior length true hcut (by simp)]
          exact heq
        · rw [← toBitmap_eq prior length true hcut (by simp), heq]
      · refine and_congr_left fun ht => ?_
        have hqhigh : q.2 ≤ high (first :: front ++ q :: back) :=
          le_high wf.canonical ⟨q, hq, hqle, le_rfl⟩
        have hnot : ¬ Covers back (cumulativeAck (first :: front ++ q :: back) + 1 + t) := by
          rintro ⟨x, hx, hle, -⟩
          have := hback x hx
          omega
        simp only [Wanted, if_true, covers_append, covers_cons, covers_nil, or_false, hnot, hhighq]
        refine and_congr_right fun _ => ?_
        omega

end

end OpenDDS.Source.DisjointSequence
