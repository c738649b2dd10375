import OpenDDS.Source.DisjointSequence

/-!
Insertion of an RTPS bitmap into a `DisjointSequence`: `insert(value, num_bits, bits)`
and its helper `insert_bitmap_range` (dds/DCPS/DisjointSequence.cpp). The scan walks
the bits from the most significant one of the first word on, keeps the start of the
run of ones it is in (zero outside a run) and the iterator of the last insertion,
and skips whole words that are zero as well as everything the last insertion merged.

`bits` is the memory at the array's address, also past its end: the skip reads the
word it lands in before the loop condition is tested again. Loop counters are
`CORBA::ULong`, so every computed index is reduced modulo 2^32.
-/
namespace OpenDDS.Source.DisjointSequence
open Library.RangeList SequenceNumber

/-- An iterator: the elements in front of it and those from it on. -/
structure Iter where
  before : List Range
  rest : List Range
  deriving DecidableEq, Repr

def Iter.seqs (it : Iter) : List Range := it.before ++ it.rest

@[simp] theorem Iter.seqs_mk (before rest : List Range) :
    Iter.seqs ⟨before, rest⟩ = before ++ rest := rfl

def lowerBound (seqs : List Range) (key : Int) : Iter := ⟨below key seqs, reaching key seqs⟩

/-- `insert`, with the iterator to the element that has the key afterwards. -/
def setInsert (seqs : List Range) (range : Range) : Iter :=
  lowerBound (insertByEnd range seqs) range.2

/-- The search for the first range that ends at `previous` or later, from the last
iterator on unless that is `end()`. -/
def seekPrevious (it : Iter) (previous : Int) : Iter :=
  match it.rest with
  | [] => lowerBound it.seqs (ofValue previous)
  | _ :: _ => ⟨it.before ++ below (ofValue previous) it.rest, reaching (ofValue previous) it.rest⟩

/-- The end of the merged range and what stays behind it. -/
def mergeRight (range : Range) (next : Int) (right : List Range) : Int × List Range :=
  match right with
  | [] => (range.2, [])
  | r :: rest => if r.1 ≤ next ∧ r.1 > range.1 then (r.2, rest) else (range.2, r :: rest)

def insertBitmapRange (it : Iter) (range : Range) : Bool × Iter :=
  let next := ofValue (range.2 + 1)
  let it := seekPrevious it (range.1 - 1)
  match it.rest with
  | [] => (true, setInsert it.seqs range)
  | found :: _ =>
    if found.1 > next then (true, setInsert it.seqs range)
    else if found.1 ≤ range.1 ∧ found.2 ≥ range.2 then (false, it)
    else
      let right := mergeRight range next (reaching next it.rest)
      (true, setInsert (it.before ++ right.2) (min found.1 range.1, right.1))

/-- The variables of the loop in `insert(value, num_bits, bits)`. -/
structure BitmapScan where
  i : Nat
  x : BitVec 32
  bit : Nat
  rangeStart : Int
  iter : Iter
  inserted : Bool
  deriving DecidableEq, Repr

/-- Conversion to `CORBA::ULong`. -/
def toULong (v : Int) : Nat := (v % 2 ^ 32).toNat

/-- The end of one iteration, `++i, ++bit`. -/
def BitmapScan.advance (s : BitmapScan) : BitmapScan :=
  { s with i := (s.i + 1) % 2 ^ 32, bit := s.bit + 1 }

/-- A zero bit that ends a run: insert the run and skip what it was merged with. -/
def closeRun (val : Int) (bits : Nat → BitVec 32) (s : BitmapScan) : BitmapScan :=
  let toInsert := val + s.i - 1
  let result := insertBitmapRange s.iter (ofValue s.rangeStart, ofValue toInsert)
  let s := { s with rangeStart := 0, iter := result.2, inserted := s.inserted || result.1 }
  match result.2.rest with
  | [] => s
  | it :: _ =>
    if it.2 ≠ toInsert then
      let nextI := toULong (it.2 - val)
      { s with
        bit := nextI % 32
        x := if nextI / 32 ≠ s.i / 32 then bits (nextI / 32) else s.x
        i := nextI }
    else s

/-- One iteration of the loop, with the increments at its end. -/
def scanStep (val : Int) (bits : Nat → BitVec 32) (s : BitmapScan) : BitmapScan :=
  let bit := if s.bit = 32 then 0 else s.bit
  let x := if bit = 0 then bits (s.i / 32) else s.x
  let s := { s with bit := bit, x := x }
  if bit = 0 ∧ x = 0 then
    -- skips an entire word, also when a run is open
    BitmapScan.advance { s with i := (s.i + 31) % 2 ^ 32, bit := 31 }
  else if x.getMsbD bit then
    BitmapScan.advance { s with rangeStart := if s.rangeStart = 0 then val + s.i else s.rangeStart }
  else if s.rangeStart ≠ 0 then (closeRun val bits s).advance
  else s.advance

def scanLoop (val : Int) (numBits : Nat) (bits : Nat → BitVec 32) :
    Nat → BitmapScan → Except Fault BitmapScan
  | 0, _ => .error .iterations
  | fuel + 1, s =>
    if s.i < numBits then scanLoop val numBits bits fuel (scanStep val bits s) else .ok s

def scanStart (seqs : List Range) : BitmapScan :=
  { i := 0, x := 0, bit := 0, rangeStart := 0, iter := ⟨seqs, []⟩, inserted := false }

/-- `value + num_bits` takes the count as an `int`. -/
def bitmapEnd (value : Int) (numBits : Nat) : Int :=
  previous (ofValue (value + (BitVec.ofNat 32 numBits).toInt))

/-- `insert(value, num_bits, bits)`, with a bound on the number of iterations. -/
def insertBits (fuel : Nat) (seqs : List Range) (value : Int) (numBits : Nat)
    (bits : Nat → BitVec 32) : Except Fault (Bool × List Range) :=
  match scanLoop value numBits bits fuel (scanStart seqs) with
  | .error fault => .error fault
  | .ok s =>
    if s.rangeStart ≠ 0 then
      let result := insertBitmapRange s.iter (ofValue s.rangeStart, bitmapEnd value numBits)
      .ok (s.inserted || result.1, result.2.seqs)
    else .ok (s.inserted, s.iter.seqs)

section

variable {it : Iter} {range : Range}

theorem setInsert_seqs (seqs : List Range) (range : Range) :
    (setInsert seqs range).seqs = insertByEnd range seqs :=
  below_append_reaching _ _

theorem seekPrevious_seqs (it : Iter) (previous : Int) : (seekPrevious it previous).seqs = it.seqs := by
  obtain ⟨before, rest⟩ := it
  cases rest with
  | nil => exact below_append_reaching _ _
  | cons x rest =>
    have hsplit := below_append_reaching (ofValue previous) (x :: rest)
    show before ++ below (ofValue previous) (x :: rest) ++ reaching (ofValue previous) (x :: rest) =
      before ++ x :: rest
    rw [List.append_assoc, hsplit]

theorem mergeRight_subset {rest : List Range} {range : Range} {next : Int} {x : Range}
    (h : x ∈ (mergeRight range next (reaching next rest)).2) : x ∈ rest := by
  have hsub : ∀ y ∈ reaching next rest, y ∈ rest := fun y hy => List.dropWhile_subset _ hy
  unfold mergeRight at h
  split at h
  · cases h
  · rename_i r rs heq
    rw [heq] at hsub
    split at h
    · exact hsub x (by simp [show x ∈ rs from h])
    · exact hsub x h

theorem setInsert_eq {front kept : List Range} {r : Range} (hf : ∀ a ∈ front, a.2 < r.2)
    (h : insertByEnd r (front ++ kept) = front ++ r :: kept) :
    setInsert (front ++ kept) r = ⟨front, r :: kept⟩ := by
  unfold setInsert lowerBound
  rw [h, below_append_of_lt hf, reaching_append_of_lt hf, below_cons_of_ge le_rfl,
    reaching_cons_of_ge le_rfl, List.append_nil]

/-- The search finds the lower bound in the whole set when the last iterator does not
lie behind it. -/
private theorem seekPrevious_eq (wf : WellFormed it.seqs)
    (hiter : ∀ x ∈ it.rest.head?, x.1 ≤ range.1) :
    seekPrevious it (range.1 - 1) = lowerBound it.seqs (ofValue (range.1 - 1)) := by
  have hkey := le_ofValue (range.1 - 1)
  unfold seekPrevious
  cases hr : it.rest with
  | nil => rfl
  | cons x rest =>
    have hx : x.1 ≤ range.1 := hiter x (by simp [hr])
    have hfront : ∀ a ∈ it.before, a.2 < ofValue (range.1 - 1) := by
      intro a ha
      have hsep := (canonical_append.mp wf.canonical).2.2 a ha x (by simp [hr])
      omega
    simp only [lowerBound, Iter.seqs, hr, below_append_of_lt hfront, reaching_append_of_lt hfront]

/-- The part of the set that the merged range replaces, for a range that meets `found`. -/
private theorem mergeRight_spec {rest : List Range} (hc : Canonical rest) (hne : rest ≠ [])
    (hmax : Within 0 maxValue rest) (hend : range.2 < maxValue)
    (hprev : ∀ r ∈ rest, range.1 - 1 ≤ r.2)
    (hnot : ∀ r ∈ rest.head?, r.1 ≤ range.2 + 1 ∧ ¬ (r.1 ≤ range.1 ∧ r.2 ≥ range.2)) :
    ∃ replaced, rest = replaced ++
        (mergeRight range (range.2 + 1) (reaching (range.2 + 1) rest)).2 ∧ replaced ≠ [] ∧
      range.2 ≤ (mergeRight range (range.2 + 1) (reaching (range.2 + 1) rest)).1 ∧
      (mergeRight range (range.2 + 1) (reaching (range.2 + 1) rest)).1 ≤ maxValue ∧
      (∀ r ∈ replaced, r.2 ≤ (mergeRight range (range.2 + 1) (reaching (range.2 + 1) rest)).1) ∧
      (∀ r ∈ (mergeRight range (range.2 + 1) (reaching (range.2 + 1) rest)).2,
        (mergeRight range (range.2 + 1) (reaching (range.2 + 1) rest)).1 + 1 < r.1) ∧
      (∀ n, range.2 < n → n ≤ (mergeRight range (range.2 + 1) (reaching (range.2 + 1) rest)).1 →
        Covers replaced n) := by
  have hsplit := below_append_reaching (range.2 + 1) rest
  have hlow : ∀ r ∈ below (range.2 + 1) rest, r.2 ≤ range.2 := fun r hr => by
    have := below_lt hr
    omega
  cases hright : reaching (range.2 + 1) rest with
  | nil =>
    rw [hright, List.append_nil] at hsplit
    refine ⟨rest, by simp [mergeRight], hne, le_rfl, hend.le, ?_, by simp [mergeRight], ?_⟩
    · intro r hr
      rw [← hsplit] at hr
      exact hlow r hr
    · intro n h₁ h₂
      simp only [mergeRight] at h₂
      omega
  | cons r rs =>
    have hge := reaching_head hright
    rw [hright] at hsplit
    have hcs : Canonical (below (range.2 + 1) rest ++ r :: rs) := hsplit.symm ▸ hc
    obtain ⟨-, hcrs, hcross⟩ := canonical_append.mp hcs
    have hrmax : r.2 ≤ maxValue := (hmax r (by rw [← hsplit]; simp)).2
    simp only [mergeRight]
    split
    · refine ⟨below (range.2 + 1) rest ++ [r], by simpa using hsplit.symm, by simp, by omega, hrmax,
        ?_, fun x hx => hcrs.head_lt hx, ?_⟩
      · intro x hx
        rcases List.mem_append.mp hx with hx | hx
        · have := hlow x hx
          omega
        · simp_all
      · intro n h₁ h₂
        exact ⟨r, by simp, by omega, h₂⟩
    · -- a range that is not merged on the right lies clear of the new one
      have hclear : below (range.2 + 1) rest ≠ [] ∧ range.2 + 1 < r.1 := by
        cases hb : below (range.2 + 1) rest with
        | nil =>
          have hhead := hnot r (by rw [← hsplit, hb]; simp)
          omega
        | cons m ms =>
          have h₁ := hcross m (by simp [hb]) r (by simp)
          have h₂ := hprev m (by rw [← hsplit, hb]; simp)
          exact ⟨by simp, by omega⟩
      refine ⟨_, hsplit.symm, hclear.1, le_rfl, hend.le, hlow, ?_, ?_⟩
      · intro x hx
        rcases List.mem_cons.mp hx with rfl | hx
        · exact hclear.2
        · have h₁ := hcrs.head_lt hx
          omega
      · omega

/-- Ranges below the search key end before the number in front of `range`. -/
private theorem below_previous {seqs : List Range} (wf : WellFormed seqs) (hlo : 1 ≤ range.1)
    (hzero : range.1 = 1 → Covers seqs 0 → Covers seqs 1) :
    ∀ a ∈ below (ofValue (range.1 - 1)) seqs, a.2 < range.1 - 1 := by
  intro a ha
  have hlt := below_lt ha
  by_cases hone : range.1 = 1
  · -- the key is clamped to one, and a range that ends below one is zero alone
    have hmem : a ∈ seqs := List.takeWhile_subset _ ha
    have h₁ := (wf.within a hmem).1
    have h₂ := wf.canonical.nonempty a hmem
    have h₃ : a.2 = 0 := by
      simp [ofValue, minValue] at hlt
      omega
    have hafter := (wf.canonical.maximalRun hmem).after
    rw [h₃] at hafter
    exact absurd (hzero hone ⟨a, hmem, by omega, by omega⟩) hafter
  · rwa [ofValue_of_pos (by omega)] at hlt

section

variable (it : Iter) (range : Range) (wf : WellFormed it.seqs) (hlo : 1 ≤ range.1)
  (hzero : range.1 = 1 → Covers it.seqs 0 → Covers it.seqs 1) (hasc : range.1 ≤ range.2)
include wf hlo hzero hasc

theorem insertBitmapRange_spec (hmax : range.2 < maxValue)
    (hiter : ∀ x ∈ it.rest.head?, x.1 ≤ range.1) : WellFormed (insertBitmapRange it range).2.seqs ∧
    (∀ n, Covers (insertBitmapRange it range).2.seqs n ↔
      Covers it.seqs n ∨ (range.1 ≤ n ∧ n ≤ range.2)) ∧
    ∃ x rest, (insertBitmapRange it range).2.rest = x :: rest ∧ x.1 ≤ range.1 ∧ range.2 ≤ x.2 := by
  have hseek := seekPrevious_eq wf hiter
  have hkeyLe := le_ofValue (range.1 - 1)
  have hfront := below_previous wf hlo hzero
  generalize ofValue (range.1 - 1) = key at *
  have hsplit := below_append_reaching key it.seqs
  have hprev : ∀ r ∈ reaching key it.seqs, range.1 - 1 ≤ r.2 :=
    fun r hr => hkeyLe.trans (reaching_ge wf.canonical hr)
  have wf' : WellFormed (below key it.seqs ++ reaching key it.seqs) := hsplit.symm ▸ wf
  obtain ⟨-, hcr, hcross⟩ := canonical_append.mp wf'.canonical
  unfold insertBitmapRange
  rw [hseek, ofValue_of_pos (by omega)]
  simp only [lowerBound]
  have hkey : ∀ n, Covers (below key it.seqs ++ reaching key it.seqs) n ↔
      Covers it.seqs n := by simp [hsplit]
  generalize below key it.seqs = front at *
  cases hrest : reaching key it.seqs with
  | nil =>
    rw [hrest] at wf' hkey
    obtain ⟨hwf, hins, hcov⟩ := splice_spec [] range range wf' (fun a ha => by have := hfront a ha; omega) (by simp) (by simp)
      ⟨by omega, hmax.le⟩ hasc ⟨le_rfl, le_rfl⟩ (fun n h₁ h₂ => .inr ⟨h₁, h₂⟩)
    simp only [Iter.seqs_mk]
    rw [setInsert_eq (fun a ha => by have := hfront a ha; omega) hins]
    refine ⟨hwf, fun n => ?_, range, [], rfl, le_rfl, le_rfl⟩
    rw [← hkey]
    exact hcov n
  | cons found rest =>
    rw [hrest] at wf' hcr hcross hprev hkey
    dsimp only
    split
    · rename_i hgap
      obtain ⟨hwf, hins, hcov⟩ := splice_spec [] range range wf' (fun a ha => by have := hfront a ha; omega)
        (fun b hb => by
          rcases List.mem_cons.mp hb with rfl | hb
          · exact hgap
          · have h₁ := hcr.head_lt hb
            have h₂ := hcr.nonempty found (by simp)
            omega) (by simp) ⟨by omega, hmax.le⟩ hasc ⟨le_rfl, le_rfl⟩
        (fun n h₁ h₂ => .inr ⟨h₁, h₂⟩)
      simp only [Iter.seqs_mk]
      rw [setInsert_eq (fun a ha => by have := hfront a ha; omega) hins]
      refine ⟨hwf, fun n => ?_, range, _, rfl, le_rfl, le_rfl⟩
      rw [← hkey]
      exact hcov n
    · split
      · rename_i hhave
        refine ⟨wf', fun n => ?_, found, rest, rfl, hhave.1, hhave.2⟩
        simp only [Iter.seqs_mk]
        rw [hkey]
        refine ⟨.inl, ?_⟩
        rintro (h | ⟨h₁, h₂⟩)
        · exact h
        · exact (hkey n).mp ⟨found, by simp, by omega, by omega⟩
      · rename_i hnot
        have hw := (within_append.mp wf'.within).2
        obtain ⟨replaced, heq, hne, hhigh, hhmax, hrepl, hclear, hfill⟩ := mergeRight_spec hcr
          (by simp) hw hmax hprev (by simpa using ⟨by omega, fun h => by simpa [h] using hnot⟩)
        generalize mergeRight range (range.2 + 1) (reaching (range.2 + 1) (found :: rest)) = right at *
        have hfirst : ∀ r ∈ replaced, found.1 ≤ r.1 := by
          intro r hr
          have hmem : r ∈ found :: rest := heq ▸ List.mem_append_left _ hr
          rcases List.mem_cons.mp hmem with rfl | hmem
          · exact le_rfl
          · have h₁ := hcr.head_lt hmem
            have h₂ := hcr.nonempty found (by simp)
            omega
        have hfound : found ∈ replaced := by
          cases replaced with
          | nil => exact absurd rfl hne
          | cons m ms => simp [(List.cons.inj heq).1]
        have hfp := hprev found (by simp)
        have hf0 := (hw found (by simp)).1
        rw [heq] at wf' hkey
        obtain ⟨hwf, hins, hcov⟩ := splice_spec replaced (min found.1 range.1, right.1) range
          wf'
          (fun a ha => by
            have h₁ := hfront a ha
            have h₂ := hcross a ha found (by simp)
            omega) hclear
          (fun r hr => ⟨by have := hfirst r hr; simp only; omega, hrepl r hr⟩)
          ⟨by simp only; omega, hhmax⟩ hasc ⟨by simp only; omega, hhigh⟩
          (fun n h₁ h₂ => by
            by_cases hlt : n < range.1
            · exact .inl ⟨found, hfound, by omega, by omega⟩
            · by_cases hgt : range.2 < n
              · exact .inl (hfill n hgt h₂)
              · exact .inr ⟨by omega, by omega⟩)
        rw [setInsert_eq (fun a ha => by have := hfront a ha; simp only; omega) hins]
        refine ⟨hwf, fun n => ?_, _, _, rfl, by simp only; omega, hhigh⟩
        rw [← hkey]
        exact hcov n

/-- `insert_bitmap_range` returns whether a number of its range was missing. -/
theorem insertBitmapRange_grew (hiter : ∀ x ∈ it.rest.head?, x.1 ≤ range.1) :
    (insertBitmapRange it range).1 = true ↔
      ∃ n, (range.1 ≤ n ∧ n ≤ range.2) ∧ ¬ Covers it.seqs n := by
  have hseek := seekPrevious_eq wf hiter
  have hkeyLe := le_ofValue (range.1 - 1)
  have hfront := below_previous wf hlo hzero
  unfold insertBitmapRange
  rw [hseek, ofValue_of_pos (by omega)]
  simp only [lowerBound]
  generalize ofValue (range.1 - 1) = key at *
  have hsplit := below_append_reaching key it.seqs
  have hcr := canonical_reaching (v := key) wf.canonical
  have hlow : ¬ Covers (below key it.seqs) range.1 := by
    rintro ⟨a, ha, -, hle⟩
    have := hfront a ha
    omega
  cases hrest : reaching key it.seqs with
  | nil =>
    simp only [true_iff]
    refine ⟨range.1, ⟨le_rfl, hasc⟩, ?_⟩
    rw [← hsplit, hrest, List.append_nil]
    exact hlow
  | cons found rest =>
    rw [hrest] at hcr hsplit
    have hmem : found ∈ it.seqs := by
      rw [← hsplit]
      simp
    have hge := reaching_head hrest
    -- When `found` starts behind the first number, that number is missing.
    have hstart : range.1 < found.1 → ¬ Covers it.seqs range.1 := by
      intro hlt
      rw [← hsplit, covers_append]
      rintro (h | h)
      · exact hlow h
      · have := hcr.head_le h
        omega
    dsimp only
    split
    · simp only [true_iff]
      exact ⟨range.1, ⟨le_rfl, hasc⟩, hstart (by omega)⟩
    · split
      · simp only [Bool.false_eq_true, false_iff]
        rintro ⟨n, ⟨h₁, h₂⟩, hout⟩
        exact hout ⟨found, hmem, by omega, by omega⟩
      · simp only [true_iff]
        by_cases hlt : range.1 < found.1
        · exact ⟨range.1, ⟨le_rfl, hasc⟩, hstart hlt⟩
        · exact ⟨found.2 + 1, ⟨by omega, by omega⟩, (wf.canonical.maximalRun hmem).after⟩

end

theorem insertBitmapRange_covers {n : Int} (hpos : 0 ≤ range.2)
    (h : Covers (insertBitmapRange it range).2.seqs n) :
    Covers it.seqs n ∨ (range.1 ≤ n ∧ n ≤ range.2) := by
  have hnew : ∀ seqs : List Range, Covers (setInsert seqs range).seqs n →
      Covers seqs n ∨ (range.1 ≤ n ∧ n ≤ range.2) := by
    rintro seqs ⟨r, hr, hn⟩
    rw [setInsert_seqs] at hr
    rcases insertByEnd_mem hr with rfl | hr
    · exact .inr hn
    · exact .inl ⟨r, hr, hn⟩
  have hkey := le_ofValue (range.1 - 1)
  have hseqs := seekPrevious_seqs it (range.1 - 1)
  have hhead : ∀ found rest, (seekPrevious it (range.1 - 1)).rest = found :: rest →
      ofValue (range.1 - 1) ≤ found.2 := by
    intro found rest hfound
    unfold seekPrevious at hfound
    split at hfound
    · exact reaching_head hfound
    · exact reaching_head hfound
  unfold insertBitmapRange at h
  rw [ofValue_of_pos (by omega)] at h
  generalize seekPrevious it (range.1 - 1) = found at h hseqs hhead
  obtain ⟨before, rest⟩ := found
  rw [← hseqs]
  cases rest with
  | nil => exact hnew _ h
  | cons found rest =>
    have hfound := hhead found rest rfl
    dsimp only at h
    split at h
    · exact hnew _ h
    · split at h
      · exact .inl h
      · obtain ⟨r, hr, hn⟩ := h
        rw [setInsert_seqs] at hr
        rcases insertByEnd_mem hr with rfl | hr
        · -- The merged range: below it belongs to `found`, above it to the range on the right.
          by_cases hlow : n < range.1
          · exact .inl ⟨found, List.mem_append_right _ (by simp), by omega, by omega⟩
          · by_cases hhigh : n ≤ range.2
            · exact .inr ⟨by omega, hhigh⟩
            · left
              have hend := hn.2
              unfold mergeRight at hend
              split at hend
              · omega
              · rename_i x xs heq
                have hmem : x ∈ found :: rest := by
                  have hin : x ∈ reaching (range.2 + 1) (found :: rest) := by simp [heq]
                  exact List.dropWhile_subset _ hin
                split at hend
                · exact ⟨x, List.mem_append_right _ hmem, by omega, hend⟩
                · omega
        · left
          refine ⟨r, ?_, hn⟩
          rcases List.mem_append.mp hr with hr | hr
          · exact List.mem_append_left _ hr
          · exact List.mem_append_right _ (mergeRight_subset hr)

end

/-- Bit `k` of the bitmap, counted from the most significant bit of the first word. -/
def bitSet (bits : Nat → BitVec 32) (k : Nat) : Bool := (bits (k / 32)).getMsbD (k % 32)

/-- The positions the scan may insert: the set bits, and the whole of a zero word that a
run of inserted positions reaches. -/
inductive Decodes (bits : Nat → BitVec 32) (numBits : Nat) : Nat → Prop
  | set {k : Nat} (bound : k < numBits) (h : bitSet bits k = true) : Decodes bits numBits k
  | carried {k : Nat} (bound : k < numBits) (later : 0 < k / 32) (zero : bits (k / 32) = 0)
      (reached : Decodes bits numBits (32 * (k / 32) - 1)) : Decodes bits numBits k

theorem Decodes.bound {bits : Nat → BitVec 32} {numBits k : Nat} (h : Decodes bits numBits k) :
    k < numBits := by
  cases h with
  | set bound _ => exact bound
  | carried bound _ _ _ => exact bound

/-- No word of the bitmap is zero right behind a set bit. -/
def NoRunOn (numBits : Nat) (bits : Nat → BitVec 32) : Prop :=
  ∀ w, 0 < w → 32 * w < numBits → bits w = 0 → bitSet bits (32 * w - 1) = false

theorem Decodes.bitSet_of_noRunOn {bits : Nat → BitVec 32} {numBits k : Nat}
    (hclean : NoRunOn numBits bits) (h : Decodes bits numBits k) : bitSet bits k = true := by
  induction h with
  | set _ h => exact h
  | carried bound later zero _ ih =>
    have := hclean _ later (by omega) zero
    rw [this] at ih
    cases ih

end OpenDDS.Source.DisjointSequence

/-!
Building RTPS bitmaps: `DisjointSequence::fill_bitmap_range` and `to_bitmap`
(dds/DCPS/DisjointSequence.cpp). A bitmap under construction is the memory of its
words; the caller's array length is passed separately, as in the source.
-/
namespace OpenDDS.Source.DisjointSequence
open Library.RangeList SequenceNumber

abbrev Bitmap := Nat → BitVec 32

/-- The mask of bit `b`, `1 << (31 - b)`. -/
def bitMask (b : Nat) : BitVec 32 := 1#32 <<< (31 - b)

/-- Bits `first` up to but excluding `stop` of one word, set one after the other. -/
def setBitsIn (x : BitVec 32) (first stop : Nat) : BitVec 32 :=
  (List.range' first (stop - first)).foldl (fun x b => x ||| bitMask b) x

def clearBitsIn (x : BitVec 32) (first stop : Nat) : BitVec 32 :=
  (List.range' first (stop - first)).foldl (fun x b => x &&& ~~~ bitMask b) x

def setWord (bitmap : Bitmap) (idx : Nat) (x : BitVec 32) : Bitmap :=
  fun w => if w = idx then x else bitmap w

def fillWords (bitmap : Bitmap) (first stop : Nat) (x : BitVec 32) : Bitmap :=
  fun w => if first ≤ w ∧ w < stop then x else bitmap w

/-- The word at `idx_low`, with the bits that may already be there preserved. -/
def lowWord (bitmap : Bitmap) (numBits low high : Nat) : BitVec 32 :=
  let idxLow := low / 32
  let bitLast := if (numBits - 1) / 32 = idxLow then (numBits - 1) % 32 + 1 else 0
  let x := if 0 < numBits then clearBitsIn (bitmap idxLow) bitLast (low % 32) else 0
  setBitsIn x (low % 32) ((if high / 32 = idxLow then high % 32 else 31) + 1)

/-- `fill_bitmap_range`: the result, the array and the new `num_bits`. -/
def fillBitmapRange (low high : Nat) (bitmap : Bitmap) (length numBits : Nat) :
    Bool × Bitmap × Nat :=
  if length ≤ low / 32 then (false, bitmap, numBits)
  else
    let clamped := decide (length ≤ high / 32)
    let high := if clamped then length * 32 - 1 else high
    let bitmap := fillWords bitmap ((numBits + 31) % 2 ^ 32 / 32) (low / 32) 0
    let bitmap := setWord bitmap (low / 32) (lowWord bitmap numBits low high)
    let bitmap := fillWords bitmap (low / 32 + 1) (high / 32) (BitVec.allOnes 32)
    let bitmap :=
      if low / 32 < high / 32 then setWord bitmap (high / 32) (setBitsIn 0 0 (high % 32 + 1))
      else bitmap
    (!clamped, bitmap, (high + 1) % 2 ^ 32)

def toBitmapLoop (base : Int) (length : Nat) (invert : Bool) :
    List Range → Bitmap → Nat → Bool × Bitmap × Nat
  | prev :: it :: rest, bitmap, numBits =>
    let low := if invert then prev.2 + 1 - base else it.1 - base
    let high := if invert then it.1 - 1 - base else it.2 - base
    match fillBitmapRange (toULong low) (toULong high) bitmap length numBits with
    | (false, bitmap, numBits) => (false, bitmap, numBits)
    | (true, bitmap, numBits) => toBitmapLoop base length invert (it :: rest) bitmap numBits
  | _, bitmap, numBits => (true, bitmap, numBits)

def toBitmap (seqs : List Range) (bitmap : Bitmap) (length : Nat) (invert : Bool) :
    Bool × Bitmap × Nat :=
  toBitmapLoop (next (cumulativeAck seqs)) length invert seqs bitmap 0

theorem fillBitmapRange_numBits (low high : Nat) (bitmap : Bitmap) (length numBits : Nat) :
    (fillBitmapRange low high bitmap length numBits).2.2 = numBits ∨
      (fillBitmapRange low high bitmap length numBits).2.2 ≤ high + 1 := by
  unfold fillBitmapRange
  split
  · exact .inl rfl
  · right
    simp only
    split <;> rename_i hclamp
    · simp only [decide_eq_true_eq] at hclamp
      omega
    · omega

theorem toULong_le {v : Int} (h : 0 ≤ v) : (toULong v : Int) ≤ v := by
  unfold toULong
  omega

theorem toBitmapLoop_numBits {base last : Int} (length : Nat) (rs : List Range) (bitmap : Bitmap)
    (numBits : Nat) (hrs : ∀ r ∈ rs.tail, base ≤ r.2 ∧ r.2 ≤ last)
    (hbits : (numBits : Int) ≤ max 0 (last - base + 1)) :
    ((toBitmapLoop base length false rs bitmap numBits).2.2 : Int) ≤ max 0 (last - base + 1) := by
  induction rs generalizing bitmap numBits with
  | nil => exact hbits
  | cons prev rest ih =>
    cases rest with
    | nil => exact hbits
    | cons it rest =>
      obtain ⟨hlo, hhi⟩ := hrs it (by simp)
      unfold toBitmapLoop
      simp only [Bool.false_eq_true, if_false]
      have hfill := fillBitmapRange_numBits (toULong (it.1 - base)) (toULong (it.2 - base)) bitmap
        length numBits
      have hoff := toULong_le (show 0 ≤ it.2 - base by omega)
      split <;> rename_i heq <;> rw [heq] at hfill
      · omega
      · exact ih _ _ (fun r hr => hrs r (by simpa using Or.inr hr)) (by simp only at hfill; omega)

end OpenDDS.Source.DisjointSequence
