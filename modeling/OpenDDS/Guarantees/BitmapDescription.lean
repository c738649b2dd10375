import OpenDDS.Source.BitmapContents

/-!
# A set described by a bitmap

`to_bitmap` is to describe the numbers above `cumulative_ack()` that are in the set, or with
`invert` those that are missing. Which bits it sets and how many it counts is right for every
set; what it does not do is to clear the rest of a word that a fill other than the first one
starts in and ends in. What the array held there before shows through when a later number
follows in another word. And in the last word whose bits a `CORBA::ULong` can count, a fill behind
another one clears all the words in front.
-/
namespace OpenDDS.Guarantees.BitmapDescription
open Library.RangeList Source.DisjointSequence

variable {seqs : List Range} {prior : Bitmap} {length : Nat} {invert : Bool}

/-- The bits that are counted say which numbers are wanted, all that fit are counted, and the
result says whether all fit. -/
structure Describes (seqs : List Range) (invert : Bool) (length : Nat)
    (result : Bool × Bitmap × Nat) : Prop where
  bound : result.2.2 ≤ 32 * length
  bits : ∀ i < result.2.2, (bitSet result.2.1 i = true ↔
    if invert then ¬ Covers seqs (cumulativeAck seqs + 1 + i)
    else Covers seqs (cumulativeAck seqs + 1 + i))
  counted : ∀ t : Nat, Wanted invert seqs (cumulativeAck seqs + 1 + t) → t < 32 * length →
    t < result.2.2
  fits : result.1 = true ↔
    ∀ t : Nat, Wanted invert seqs (cumulativeAck seqs + 1 + t) → t < 32 * length

theorem Describes.nothingWiped (wf : WellFormed seqs) (hne : seqs ≠ [])
    (hsize : high seqs - cumulativeAck seqs < 2 ^ 32)
    (h : Describes seqs invert length (toBitmap seqs prior length invert)) :
    NothingWiped (WantedOffset invert seqs length) := by
  intro hwraps t ht
  by_contra hlt
  have hwiped := toBitmap_wiped prior length invert wf hne
    (fun r hr => by
      have hle := wf.canonical.nonempty r hr
      have hhigh := le_high wf.canonical ⟨r, hr, hle, le_rfl⟩
      split <;> omega)
    (fun t ht => by
      have := ht.lt_high length invert wf
      omega) hwraps t (by omega)
  have hbit := (h.bits t (h.counted t ht.1 ht.2)).mpr (by
    have hwanted := ht.1
    unfold Wanted at hwanted
    cases invert with
    | true => exact hwanted.1
    | false => exact hwanted)
  rw [hwiped] at hbit
  cases hbit

theorem described_iff_clean (wf : WellFormed seqs) (hne : seqs ≠ [])
    (hsize : high seqs - cumulativeAck seqs < 2 ^ 32)
    (hwiped : NothingWiped (WantedOffset invert seqs length)) :
    Describes seqs invert length (toBitmap seqs prior length invert) ↔
      ∀ i, Exposed (WantedOffset invert seqs length) i →
        (∃ t, WantedOffset invert seqs length t ∧ i < t) → bitSet prior i = false := by
  obtain ⟨ok, bitmap, numBits, heq, hfilled, hlen, hok⟩ :=
    toBitmap_filled prior length invert wf hne hsize hwiped
  rw [heq]
  -- Below the last counted number, missing and wanted are the same.
  have hwant : ∀ i < numBits, ((if invert then ¬ Covers seqs (cumulativeAck seqs + 1 + i)
      else Covers seqs (cumulativeAck seqs + 1 + i)) ↔ WantedOffset invert seqs length i) := by
    intro i hi
    have hlast := (hfilled.last (by omega)).1
    unfold WantedOffset
    rw [and_iff_left (by omega)]
    unfold Wanted at hlast ⊢
    cases invert with
    | true =>
      simp only [if_true] at hlast ⊢
      exact (and_iff_left (by omega)).symm
    | false => exact Iff.rfl
  rw [← hfilled.exact_iff]
  constructor
  · intro hdescribes i hi
    exact (hdescribes.bits i hi).trans (hwant i hi)
  · intro hbits
    refine ⟨hlen, fun i hi => ?_, fun t hT hlt => hfilled.bound t ⟨hT, hlt⟩, hok⟩
    rw [hwant i hi]
    exact hbits i hi

/-- `to_bitmap` describes its set if and only if the array holds no ones at the positions
that it leaves as they are and counts, and no fill wipes what is in front of the last word. -/
theorem described_iff (wf : WellFormed seqs) (hne : seqs ≠ [])
    (hsize : high seqs - cumulativeAck seqs < 2 ^ 32) :
    Describes seqs invert length (toBitmap seqs prior length invert) ↔
      (∀ i, Exposed (WantedOffset invert seqs length) i →
        (∃ t, WantedOffset invert seqs length t ∧ i < t) → bitSet prior i = false) ∧
      NothingWiped (WantedOffset invert seqs length) := by
  constructor
  · intro hdescribes
    have hwiped := hdescribes.nothingWiped wf hne hsize
    exact ⟨(described_iff_clean wf hne hsize hwiped).mp hdescribes, hwiped⟩
  · rintro ⟨hclean, hwiped⟩
    exact (described_iff_clean wf hne hsize hwiped).mpr hclean

/-- The set 1, 3, 5 to 6 and 9 in an array of ones. -/
theorem described_iff_first_word :
    Describes [(1, 1), (3, 3), (5, 6), (9, 9)] false 1
      (toBitmap [(1, 1), (3, 3), (5, 6), (9, 9)] (fun _ => BitVec.allOnes 32) 1 false) := by
  have wf : WellFormed [(1, 1), (3, 3), (5, 6), (9, 9)] :=
    ⟨⟨by decide, by decide⟩, by unfold Within; decide⟩
  refine (described_iff wf (by decide) (by decide)).mpr ⟨?_, nothingWiped 1 false (by decide)⟩
  rintro i ⟨⟨⟨t, -, hlt⟩, -⟩, ⟨j, ⟨-, hj⟩, hsame⟩, -⟩
  omega

/-- With 1, 3, 40 and 70 in the set and an array of ones, the bits behind 40 in its word
stay ones. -/
theorem stale_bits_described :
    ¬ ∀ (seqs : List Range) (prior : Bitmap) (length : Nat) (invert : Bool), WellFormed seqs →
      seqs ≠ [] → high seqs - cumulativeAck seqs < 2 ^ 32 → 1 ≤ length →
      Describes seqs invert length (toBitmap seqs prior length invert) := by
  intro h
  have wf : WellFormed [(1, 1), (3, 3), (40, 40), (70, 70)] :=
    ⟨⟨by decide, by decide⟩, by unfold Within; decide⟩
  have hdesc := h [(1, 1), (3, 3), (40, 40), (70, 70)] (fun _ => BitVec.allOnes 32) 3 false wf
    (by decide) (by decide) (by decide)
  have hbit : bitSet (toBitmap [(1, 1), (3, 3), (40, 40), (70, 70)]
      (fun _ => BitVec.allOnes 32) 3 false).2.1 39 = true := by decide +kernel
  have hcov := (hdesc.bits 39 (by decide +kernel)).mp hbit
  obtain ⟨r, hr, hlow, hhigh⟩ : Covers [(1, 1), (3, 3), (40, 40), (70, 70)] 41 := hcov
  simp only [List.mem_cons, List.not_mem_nil, or_false] at hr
  rcases hr with rfl | rfl | rfl | rfl <;> simp only at hlow hhigh <;> omega

end OpenDDS.Guarantees.BitmapDescription
