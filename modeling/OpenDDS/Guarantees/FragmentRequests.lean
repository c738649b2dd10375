import OpenDDS.Source.NackFrags

/-!
# Requests for fragments

`extend_bitmap_range` starts one bit behind the end of the bitmap and stops one bit behind the
extent. The first number above the fragments that are kept is left out and the one above the
extent is requested, or a fragment that is kept is requested again; only the end of a word hides
this.
-/
namespace OpenDDS.Guarantees.FragmentRequests
open Library.RangeList Source Source.DisjointSequence Source.TransportReassembly Source.NackFrags

/-- The fragment numbers that a set requests. -/
def Requests (fnSet : FragmentNumberSet) (n : Int) : Prop :=
  ∃ i, fnSet.Marks i ∧ n = fnSet.bitmapBase + i

/-- The fragments from `base` on that are not held, up to the extent or the highest one held. -/
def Missing (flist : List FragRange) (base : Int) (extent : Nat) (n : Int) : Prop :=
  ¬ Covers (ranges flist) n ∧ base ≤ n ∧ n ≤ max (extent : Int) (high (ranges flist)) ∧ n < base + 255

/-- The extents that are right behind a gap which ends at offset `gap`. -/
structure Extent (flist : List FragRange) (memory : Bitmap) (gap : Nat) (extent : Nat) : Prop where
  last : Gap flist gap ∧ ∀ t, Gap flist t → t ≤ gap
  clean : ∀ i < gap, Exposed (Gap flist) i → bitSet memory i = false
  within : (extent : Int) ≤ firstMissing flist + gap ∨ gap = 254 ∨
    ((extent : Int) = firstMissing flist + gap + 1 ∧ 32 ∣ gap + 2) ∨
    (high (ranges flist) = firstMissing flist + gap + 1 ∧ high (ranges flist) < extent ∧
      32 ∣ extent + 1 - (firstMissing flist).toNat ∧ extent + 1 - (firstMissing flist).toNat < 255 ∧
      (32 ∣ gap + 2 → Exposed (Gap flist) (gap + 1) → bitSet memory (gap + 1) = false))

section

variable {flist : List FragRange} {fnSet : FragmentNumberSet} {memory : Bitmap} {extent : Nat}

theorem exact_iff_offsets (hs : Stored flist) (hbase : fnSet.bitmapBase = (firstMissing flist).toNat) :
    (∀ n, Requests fnSet n ↔ Missing flist fnSet.bitmapBase extent n) ↔
      ∀ i, fnSet.Marks i ↔ ¬ Covers (ranges flist) (firstMissing flist + i) ∧
        firstMissing flist + i ≤ max (extent : Int) (high (ranges flist)) ∧ i < 255 := by
  have hpos := firstMissing_pos hs
  have heq : (fnSet.bitmapBase : Int) = firstMissing flist := by omega
  unfold Requests Missing
  rw [heq]
  constructor
  · intro h i
    constructor
    · intro hi
      obtain ⟨hfree, -, hle, hlt⟩ := (h (firstMissing flist + i)).mp ⟨i, hi, rfl⟩
      exact ⟨hfree, hle, by omega⟩
    · rintro ⟨hfree, hle, hlt⟩
      obtain ⟨j, hj, hij⟩ := (h (firstMissing flist + i)).mpr ⟨hfree, by omega, hle, by omega⟩
      obtain rfl : i = j := by omega
      exact hj
  · intro h n
    constructor
    · rintro ⟨i, hi, rfl⟩
      obtain ⟨hfree, hle, hlt⟩ := (h i).mp hi
      exact ⟨hfree, by omega, hle, by omega⟩
    · rintro ⟨hfree, hlow, hle, hlt⟩
      obtain ⟨i, hi⟩ := Int.eq_ofNat_of_zero_le (show 0 ≤ n - firstMissing flist by omega)
      obtain rfl : n = firstMissing flist + i := by omega
      exact ⟨i, (h i).mpr ⟨hfree, hle, by omega⟩, rfl⟩

theorem extended_marks {numBits : Nat} {length : Nat} {bitmap : Bitmap} (hs : Stored flist)
    (hmany : ¬ OneRun flist) (hfilled : Filled memory (Gap flist) numBits bitmap)
    (hset : fnSet = ⟨(firstMissing flist).toNat, length, bitmap, numBits⟩) (hextent : extent < 2 ^ 32)
    (i : Nat) :
    (extendBitmapRange fnSet extent).Marks i ↔
      (Gap flist i ∨ (i < numBits ∧ Exposed (Gap flist) i ∧ bitSet memory i = true)) ∨
      (Grows fnSet extent ∧ ((numBits < i ∧ i ≤ lastWritten (newNumBits fnSet extent)) ∨
        (i = numBits ∧ 32 ∣ i + 1 ∧ Exposed (Gap flist) i ∧ bitSet memory i = true))) := by
  have hpos := firstMissing_pos hs
  have hbits := hfilled.bound 0 (gap_zero hs hmany)
  have hlast := hfilled.last hbits
  subst hset
  rw [extend_marks (by simp only; omega) hextent hbits]
  refine or_congr ?_ (and_congr_right fun _ => or_congr_right (and_congr_right fun hi =>
    and_congr_right fun hword => ?_))
  · constructor
    · rintro ⟨hi, hbit⟩
      exact ((hfilled.below i hi).mp hbit).imp_right fun h => ⟨hi, h⟩
    · rintro (h | ⟨hi, h⟩)
      · exact ⟨hfilled.bound i h, (hfilled.below i (hfilled.bound i h)).mpr (.inl h)⟩
      · exact ⟨hi, (hfilled.below i hi).mpr (.inr h)⟩
  · -- The bit behind the last one, in the same word.
    subst hi
    rw [hfilled.tail hbits i le_rfl (by omega)]
    refine and_congr_left fun _ => ⟨fun hfresh => ⟨hfresh, ⟨i - 1, hlast, by omega⟩, ?_⟩, fun h => h.1⟩
    exact fun j hj _ => hfilled.bound j hj

theorem not_gap_of_exposed {i : Nat} (h : Exposed (Gap flist) i) : ¬ Gap flist i :=
  fun hgap => absurd (h.2.2 i hgap rfl) (lt_irrefl i)

section

variable {numBits new : Nat}

/-- The offsets marked after an extension to `new` bits. -/
def Marked (flist : List FragRange) (memory : Bitmap) (numBits new i : Nat) : Prop :=
  (Gap flist i ∨ (i < numBits ∧ Exposed (Gap flist) i ∧ bitSet memory i = true)) ∨
    ((numBits < new ∧ ¬ (new = numBits + 1 ∧ 32 ∣ numBits + 1)) ∧
      ((numBits < i ∧ i ≤ lastWritten new) ∨
        (i = numBits ∧ 32 ∣ i + 1 ∧ Exposed (Gap flist) i ∧ bitSet memory i = true)))

def Wanted (flist : List FragRange) (extent i : Nat) : Prop :=
  ¬ Covers (ranges flist) (firstMissing flist + i) ∧
    firstMissing flist + i ≤ max (extent : Int) (high (ranges flist)) ∧ i < 255

theorem not_covers_above (hs : Stored flist) {n : Int} (h : high (ranges flist) < n) :
    ¬ Covers (ranges flist) n := fun hc => by
  have := le_high (canonical_ranges hs) hc
  omega

theorem gap_lt_high (hs : Stored flist) {gap : Nat} (h : Gap flist gap) :
    firstMissing flist + gap < high (ranges flist) := by
  have hcovered := covers_high (canonical_ranges hs) (ranges_ne_nil hs)
  exact lt_of_le_of_ne h.2.2 fun heq => h.2.1 (heq ▸ hcovered)

theorem within_of_exact (hs : Stored flist) (hlast : Gap flist (numBits - 1)) (hbits : 0 < numBits)
    (hbound : ∀ t, Gap flist t → t < numBits) (hfit : numBits ≤ 255)
    (hnew : new = min 255 (extent + 1 - (firstMissing flist).toNat))
    (h : ∀ i, Marked flist memory numBits new i ↔ Wanted flist extent i) :
    (extent : Int) ≤ firstMissing flist + (numBits - 1 : Nat) ∨ numBits - 1 = 254 ∨
      ((extent : Int) = firstMissing flist + (numBits - 1 : Nat) + 1 ∧ 32 ∣ numBits - 1 + 2) ∨
      (high (ranges flist) = firstMissing flist + (numBits - 1 : Nat) + 1 ∧ high (ranges flist) < extent ∧
        32 ∣ extent + 1 - (firstMissing flist).toNat ∧ extent + 1 - (firstMissing flist).toNat < 255 ∧
        (32 ∣ numBits - 1 + 2 → Exposed (Gap flist) (numBits - 1 + 1) →
          bitSet memory (numBits - 1 + 1) = false)) := by
  have hpos := firstMissing_pos hs
  have hbelow := gap_lt_high hs hlast
  by_cases hgrows : numBits < new ∧ ¬ (new = numBits + 1 ∧ 32 ∣ numBits + 1)
  · -- The bit behind the first one left out is set, and so is the last one written.
    have hwritten : numBits + 1 ≤ lastWritten new := by
      unfold lastWritten
      split_ifs <;> omega
    obtain ⟨hfree, hle, hlt⟩ := (h (numBits + 1)).mp (.inr ⟨hgrows, .inl ⟨by omega, hwritten⟩⟩)
    obtain ⟨-, hlast', hlt'⟩ := (h (lastWritten new)).mp (.inr ⟨hgrows, .inl ⟨by omega, le_rfl⟩⟩)
    have hhigh : high (ranges flist) < firstMissing flist + (numBits + 1 : Nat) := by
      by_contra hge
      have := hbound (numBits + 1) ⟨by omega, hfree, by omega⟩
      omega
    have hword : 32 ∣ new := by
      by_contra hnot
      rw [lastWritten, if_neg hnot] at hlast' hlt'
      omega
    refine .inr (.inr (.inr ⟨by omega, by omega, by omega, by omega, fun hdiv hexp => ?_⟩))
    by_contra hbit
    have hat : numBits - 1 + 1 = numBits := by omega
    rw [hat] at hexp hbit
    obtain ⟨hfree', -, -⟩ := (h numBits).mp
      (.inr ⟨hgrows, .inr ⟨rfl, by omega, hexp, by simpa using hbit⟩⟩)
    have := hbound numBits ⟨by omega, hfree', by omega⟩
    omega
  · omega

theorem exact_of_extent (hs : Stored flist) {gap : Nat} (hgap : Extent flist memory gap extent)
    (hfit : ¬ Gap flist 255) (hnew : new = min 255 (extent + 1 - (firstMissing flist).toNat)) (i : Nat) :
    Marked flist memory (gap + 1) new i ↔ Wanted flist extent i := by
  have hpos := firstMissing_pos hs
  have hbelow := gap_lt_high hs hgap.last.1
  have hmax := hgap.last.2
  have hbits : ¬ (i < gap + 1 ∧ Exposed (Gap flist) i ∧ bitSet memory i = true) := by
    rintro ⟨hi, hexp, hbit⟩
    have hne : i ≠ gap := fun heq => not_gap_of_exposed hexp (heq ▸ hgap.last.1)
    rw [hgap.clean i (by omega) hexp] at hbit
    cases hbit
  have hgap254 : gap ≤ 254 := by
    have h₁ := hgap.last.1.1
    have h₂ : gap ≠ 255 := fun heq => hfit (heq ▸ hgap.last.1)
    omega
  have hinner : i ≤ gap → (Gap flist i ↔ Wanted flist extent i) := by
    intro hi
    constructor
    · exact fun ⟨_, hfree, _⟩ => ⟨hfree, by omega, by omega⟩
    · exact fun ⟨hfree, _, _⟩ => ⟨by omega, hfree, by omega⟩
  have houter : gap < i → ¬ Gap flist i := fun hi hg => by
    have := hmax i hg
    omega
  by_cases hbeyond : (extent : Int) ≤ high (ranges flist) ∨ gap = 254
  · -- Nothing is wanted behind the last gap, and the bitmap does not grow.
    have hsame : ¬ (gap + 1 < new ∧ ¬ (new = gap + 1 + 1 ∧ 32 ∣ gap + 1 + 1)) := by
      have := hgap.within
      omega
    unfold Marked
    simp only [hbits, hsame, false_and, or_false]
    by_cases hi : i ≤ gap
    · exact hinner hi
    · refine iff_of_false (houter (by omega)) fun ⟨hfree, hle, hlt⟩ => houter (by omega) ⟨?_, hfree, ?_⟩
      · omega
      · omega
  · obtain ⟨hend, hlt, hdiv, hsize, hclean⟩ : high (ranges flist) = firstMissing flist + gap + 1 ∧
        high (ranges flist) < extent ∧ 32 ∣ extent + 1 - (firstMissing flist).toNat ∧
        extent + 1 - (firstMissing flist).toNat < 255 ∧
        (32 ∣ gap + 2 → Exposed (Gap flist) (gap + 1) → bitSet memory (gap + 1) = false) := by
      rcases hgap.within with h | h | h | h
      · omega
      · omega
      · omega
      · exact h
    have hgrows : gap + 1 < new ∧ ¬ (new = gap + 1 + 1 ∧ 32 ∣ gap + 1 + 1) := by omega
    have hwritten : lastWritten new = new - 1 := if_pos (by omega)
    have hbehind : ¬ (i = gap + 1 ∧ 32 ∣ i + 1 ∧ Exposed (Gap flist) i ∧ bitSet memory i = true) := by
      rintro ⟨rfl, hword, hexp, hbit⟩
      rw [hclean hword hexp] at hbit
      cases hbit
    unfold Marked
    simp only [hbits, hbehind, hgrows, or_false, true_and, not_false_eq_true]
    by_cases hi : i ≤ gap
    · rw [← hinner hi]
      exact or_iff_left (by omega)
    · rw [or_iff_right (houter (by omega))]
      constructor
      · rintro ⟨hgt, hle⟩
        exact ⟨not_covers_above hs (by omega), by omega, by omega⟩
      · rintro ⟨hfree, hle, -⟩
        have hne : i ≠ gap + 1 := by
          rintro rfl
          refine hfree ?_
          rw [Nat.cast_add, Nat.cast_one, ← add_assoc, ← hend]
          exact covers_high (canonical_ranges hs) (ranges_ne_nil hs)
        omega

end

theorem gaps_exact_iff {r : Reassembly} {key : FragKey} (hs : Stored flist)
    (hlookup : r.fragments.lookup key = some flist) (hmany : ¬ OneRun flist) (memory : Bitmap)
    (hextent : extent < 2 ^ 32) :
    (∀ i, (extendBitmapRange (missingFrags r key memory) extent).Marks i ↔ Wanted flist extent i) ↔
      ¬ Gap flist 255 ∧ ∃ gap, Extent flist memory gap extent := by
  obtain ⟨bitmap, numBits, hset, hfilled, hlen⟩ := missingFrags_filled hs hlookup hmany memory
  have hbits := hfilled.bound 0 (gap_zero hs hmany)
  have hlast := hfilled.last hbits
  have hnew : newNumBits (missingFrags r key memory) extent =
      min 255 (extent + 1 - (firstMissing flist).toNat) := by
    rw [hset, newNumBits]
  have hnum : (missingFrags r key memory).numBits = numBits := by rw [hset]
  have hmarked : ∀ i, (extendBitmapRange (missingFrags r key memory) extent).Marks i ↔
      Marked flist memory numBits (newNumBits (missingFrags r key memory) extent) i := by
    intro i
    rw [extended_marks hs hmany hfilled hset hextent, Grows, hnum, Marked]
  simp only [hmarked]
  constructor
  · intro h
    have hfit : ¬ Gap flist 255 := fun hgap => by
      have := ((h 255).mp (.inl (.inl hgap))).2.2
      omega
    have hcount : numBits ≠ 256 := fun heq => hfit (by rwa [heq] at hlast)
    have hmax : ∀ t, Gap flist t → t ≤ numBits - 1 := fun t ht => by
      have := hfilled.bound t ht
      omega
    refine ⟨hfit, numBits - 1, ⟨hlast, hmax⟩, fun i hi hexp => ?_,
      within_of_exact hs hlast hbits hfilled.bound (by omega) hnew h⟩
    by_contra hbit
    obtain ⟨hfree, -, hlt⟩ := (h i).mp (.inl (.inr ⟨by omega, hexp, by simpa using hbit⟩))
    have hbelow := gap_lt_high hs hlast
    exact not_gap_of_exposed hexp ⟨by omega, hfree, by omega⟩
  · rintro ⟨hfit, gap, hgap⟩ i
    have h₁ := hgap.last.2 _ hlast
    have h₂ := hfilled.bound gap hgap.last.1
    obtain rfl : numBits = gap + 1 := by omega
    exact exact_of_extent hs hgap hfit hnew i

theorem run_exact_iff {r : Reassembly} {key : FragKey} (hs : Stored flist)
    (hlookup : r.fragments.lookup key = some flist) (hone : OneRun flist) (memory : Bitmap)
    (hextent : extent < 2 ^ 32) :
    (∀ i, (extendBitmapRange (missingFrags r key memory) extent).Marks i ↔ Wanted flist extent i) ↔
      (extent : Int) = high (ranges flist) + 1 := by
  obtain ⟨hfirst, bitmap, hset, hbit⟩ := missingFrags_run hs hlookup hone memory
  have hpos := firstMissing_pos hs
  have hmarks : ∀ i, (extendBitmapRange (missingFrags r key memory) extent).Marks i ↔
      i = 0 ∨ (Grows (missingFrags r key memory) extent ∧ 1 < i ∧
        i ≤ lastWritten (newNumBits (missingFrags r key memory) extent)) := by
    intro i
    rw [extend_marks (by rw [hset]; simp only; omega) hextent (by rw [hset]; exact Nat.one_pos), hset]
    refine or_congr ?_ (and_congr_right fun _ => or_iff_left ?_)
    · constructor
      · exact fun h => Nat.lt_one_iff.mp h.1
      · rintro rfl
        exact ⟨Nat.one_pos, hbit⟩
    · simp only
      omega
  have habove : ∀ i : Nat, ¬ Covers (ranges flist) (firstMissing flist + i) := fun i =>
    not_covers_above hs (by omega)
  simp only [hmarks, Wanted, habove, not_false_eq_true, true_and]
  constructor
  · intro h
    have hzero := (h 0).mp (.inl rfl)
    have hone : ¬ (firstMissing flist + (1 : Nat) ≤ max (extent : Int) (high (ranges flist)) ∧ 1 < 255) :=
      fun hw => by
        rcases (h 1).mpr hw with h₁ | ⟨-, h₁, -⟩
        · exact absurd h₁ one_ne_zero
        · exact absurd h₁ (lt_irrefl 1)
    omega
  · intro heq i
    have hsame : ¬ Grows (missingFrags r key memory) extent := by
      rw [hset]
      unfold Grows newNumBits
      simp only
      omega
    simp only [hsame, false_and, or_false]
    omega

/-- The fragment set requests exactly the missing fragments if and only if the extent is right
behind the last gap, or what goes wrong is hidden by the end of a word. -/
theorem nack_frag_exact_iff (r : Reassembly) (key : FragKey) (flist : List FragRange)
    (hs : Stored flist) (hlookup : r.fragments.lookup key = some flist) (memory : Bitmap)
    (extent : Nat) (hextent : extent < 2 ^ 32) :
    (∀ n, Requests (extendBitmapRange (missingFrags r key memory) extent) n ↔
        Missing flist (extendBitmapRange (missingFrags r key memory) extent).bitmapBase extent n) ↔
      (OneRun flist → (extent : Int) = high (ranges flist) + 1) ∧
        (¬ OneRun flist → ¬ Gap flist 255 ∧ ∃ gap, Extent flist memory gap extent) := by
  have hbase : (extendBitmapRange (missingFrags r key memory) extent).bitmapBase =
      (firstMissing flist).toNat := by
    rw [extend_base]
    by_cases hone : OneRun flist
    · obtain ⟨-, bitmap, hset, -⟩ := missingFrags_run hs hlookup hone memory
      rw [hset]
    · obtain ⟨bitmap, numBits, hset, -⟩ := missingFrags_filled hs hlookup hone memory
      rw [hset]
  rw [exact_iff_offsets hs hbase]
  by_cases hone : OneRun flist
  · simp only [hone, not_true_eq_false, false_implies, and_true, true_implies]
    exact run_exact_iff hs hlookup hone memory hextent
  · simp only [hone, not_false_eq_true, false_implies, true_and, true_implies]
    exact gaps_exact_iff hs hlookup hone memory hextent

end

section

open DataSampleHeader

def heldRanges (rs : List Range) : List FragRange :=
  rs.map fun r => ⟨r.1, r.2, ⟨create .littleEndian, some []⟩⟩

/-- One sample of which some fragments have arrived. -/
def holding (key : FragKey) (rs : List Range) : Reassembly := ⟨[(key, heldRanges rs)], []⟩

theorem lookup_holding (key : FragKey) (rs : List Range) :
    (holding key rs).fragments.lookup key = some (heldRanges rs) := by
  simp [holding]

def someKey : FragKey := ⟨(create .littleEndian).publicationId, 0, 1⟩

theorem stored_twoFive : Stored (heldRanges [(2, 2), (5, 5)]) where
  kept := by decide
  positive := by decide
  nonempty := by decide
  apart := by decide
  last := by decide
  more := by simp [heldRanges]

/-- 2 and 5 are held, and the fragments up to 4 are available: the request, of four bits, names what
is missing. -/
theorem nack_frag_twoFive :
    (∀ n, Requests (extendBitmapRange
        (missingFrags (holding someKey [(2, 2), (5, 5)]) someKey fun _ => BitVec.allOnes 32) 4) n ↔
      Missing (heldRanges [(2, 2), (5, 5)]) (extendBitmapRange
        (missingFrags (holding someKey [(2, 2), (5, 5)]) someKey fun _ => BitVec.allOnes 32) 4).bitmapBase
        4 n) ∧
    (missingFrags (holding someKey [(2, 2), (5, 5)]) someKey fun _ => BitVec.allOnes 32).numBits = 4 := by
  have hranges : ranges (heldRanges [(2, 2), (5, 5)]) = [(2, 2), (5, 5)] := rfl
  have hfirst : firstMissing (heldRanges [(2, 2), (5, 5)]) = 1 := rfl
  have hhigh : high (ranges (heldRanges [(2, 2), (5, 5)])) = 5 := rfl
  have hgap : Gap (heldRanges [(2, 2), (5, 5)]) 3 := by
    refine ⟨by decide, ?_, by decide⟩
    rw [hranges, hfirst]
    simp
  refine ⟨(nack_frag_exact_iff (holding someKey [(2, 2), (5, 5)]) someKey _ stored_twoFive
    (lookup_holding _ _) (fun _ => BitVec.allOnes 32) 4 (by decide)).mpr
    ⟨?_, fun _ => ⟨?_, 3, ⟨⟨hgap, fun t ht => ?_⟩, fun i hi hexp => ?_, by omega⟩⟩⟩,
    by decide +kernel⟩
  · rintro ⟨fr, heq, -⟩
    simp [heldRanges] at heq
  · rintro ⟨-, -, hle⟩
    omega
  · have hlt := gap_lt_high stored_twoFive ht
    omega
  · -- All bits are in the first word.
    obtain ⟨⟨⟨t, -, hlt⟩, -⟩, -⟩ := hexp
    omega

/-- 1, 3 and 4 are held, which are all up to the extent: 4 is requested again. -/
theorem held_fragment_requested : ¬ ∀ (r : Reassembly) (key : FragKey) (flist : List FragRange),
    Stored flist → r.fragments.lookup key = some flist → ∀ (memory : Bitmap) (extent : Nat),
    extent < 2 ^ 32 → ∀ n, Requests (extendBitmapRange (missingFrags r key memory) extent) n ↔
      Missing flist (extendBitmapRange (missingFrags r key memory) extent).bitmapBase extent n := by
  intro hall
  have hstored : Stored (heldRanges [(1, 1), (3, 4)]) :=
    ⟨by decide, by decide, by decide, by decide, by decide, by simp [heldRanges]⟩
  have hset : (extendBitmapRange
      (missingFrags (holding someKey [(1, 1), (3, 4)]) someKey fun _ => 0) 4).bitmapBase = 2 := by
    decide +kernel
  have hmarks : (extendBitmapRange
      (missingFrags (holding someKey [(1, 1), (3, 4)]) someKey fun _ => 0) 4).Marks 2 := by
    unfold FragmentNumberSet.Marks
    decide +kernel
  have hmissing := (hall _ _ _ hstored (lookup_holding someKey _) (fun _ => 0) 4 (by decide) 4).mp
    ⟨2, hmarks, by rw [hset]; rfl⟩
  exact hmissing.1 ⟨(3, 4), by decide, by decide, by decide⟩

end

end OpenDDS.Guarantees.FragmentRequests
