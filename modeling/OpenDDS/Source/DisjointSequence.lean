import OpenDDS.Library.RangeList
import OpenDDS.Source.SequenceNumber

/-!
`OpenDDS::DCPS::DisjointSequence` (dds/DCPS/DisjointSequence.{h,inl,cpp}): a set of
sequence numbers kept as a `std::set` of ranges ordered by their last members. The
set is its list in that order, and an iterator is the split of the list in front of
the element it points to, so that `end()` leaves nothing behind it.

`validate` throws on a descending range and `erase` is undefined on a pair of
iterators in the wrong order: both end the operation with a `Fault`.
-/
namespace OpenDDS.Source.DisjointSequence
open Library.RangeList SequenceNumber

inductive Fault where
  /-- "SequenceNumber range invalid, range must be ascending." -/
  | rangeInvalid
  /-- A pair of iterators that does not delimit a part of the set. -/
  | iteratorRange
  /-- A precondition of the class, `!empty()`, was not met. -/
  | emptySequence
  /-- The bitmap loop did not end within the given number of iterations. -/
  | iterations
  deriving DecidableEq, Repr

def empty (seqs : List Range) : Bool := seqs.isEmpty

def reset : List Range := []

/-- `sequences_.begin()->first`; undefined for an empty set. -/
def low (seqs : List Range) : Int := (seqs.head?.map Prod.fst).getD 0

/-- `sequences_.rbegin()->second`; undefined for an empty set. -/
def high (seqs : List Range) : Int := (seqs.getLast?.map Prod.snd).getD 0

def cumulativeAck (seqs : List Range) : Int := (seqs.head?.map Prod.snd).getD unknown

def lastAck (seqs : List Range) : Int := (seqs.getLast?.map Prod.fst).getD unknown

def disjoint (seqs : List Range) : Bool := 1 < seqs.length

/-- `iter != end() && iter->first <= first` for the iterator in front of `rs`. -/
def startsBy (rs : List Range) (first : Int) : Bool :=
  match rs with
  | [] => false
  | r :: _ => r.1 ≤ first

def contains (seqs : List Range) (value : Int) : Bool := startsBy (reaching value seqs) value

/-- The range above takes part in the new range when nothing lies between them. -/
def mergeAbove (range : Range) (rangeAbove : List Range) : Range × List Range :=
  match rangeAbove with
  | [] => (range, [])
  | a :: rest => if next range.2 ≥ a.1 then ((range.1, a.2), rest) else (range, a :: rest)

/-- The key of the search for the range below: the number before `first`, or zero. -/
def previousKey (first : Int) : Int := if first - 1 > 0 then ofValue (first - 1) else zero

def mergeBelow (newRange : Range) (rangeBelow : List Range) : Range :=
  match rangeBelow with
  | [] => newRange
  | b :: _ => if newRange.1 > b.1 then (b.1, newRange.2) else newRange

/-- `erase(range_below, range_above)`, called only when `range_below` is not `end()`. -/
def eraseBetween (before rangeBelow rangeAbove : List Range) : Except Fault (List Range) :=
  match rangeBelow with
  | [] => .ok before
  | _ :: _ =>
    if rangeBelow.length < rangeAbove.length then .error .iteratorRange
    else .ok (before ++ rangeAbove)

/-- `insert_i` without the optional list of gaps. -/
def insertI (seqs : List Range) (range : Range) : Except Fault (Bool × List Range) :=
  if range.1 > range.2 then .error .rangeInvalid
  else if startsBy (reaching range.2 seqs) range.1 then .ok (false, seqs)
  else
    let above := mergeAbove range (reaching range.2 seqs)
    let rangeBelow := reaching (previousKey range.1) seqs
    match eraseBetween (below (previousKey range.1) seqs) rangeBelow above.2 with
    | .error fault => .error fault
    | .ok kept => .ok (true, insertByEnd (mergeBelow above.1 rangeBelow) kept)

/-- The rest of the gap loop of `insert_i`, from `last_gap` on. -/
def gapLoop (range : Range) : Int → List Range → List Range
  | lastGap, [] => if lastGap < range.2 then [(next lastGap, range.2)] else []
  | lastGap, gap :: rest =>
    (next lastGap, ofValue (min (previous gap.1) range.2)) :: gapLoop range gap.2 rest

/-- The `gaps` of `insert_i`. The loop starts behind `range_below` and runs to
`range_above`, so it needs at least one range between them. -/
def gapsOf (seqs : List Range) (range : Range) : Except Fault (List Range) :=
  if range.1 > range.2 then .error .rangeInvalid
  else if startsBy (reaching range.2 seqs) range.1 then .ok []
  else
    let rangeAbove := (mergeAbove range (reaching range.2 seqs)).2
    match reaching (previousKey range.1) seqs with
    | [] => .ok []
    | b :: rest =>
      if rest.length + 1 ≤ rangeAbove.length then .error .iteratorRange
      else
        .ok ((if range.1 < b.2 then [(range.1, previous b.2)] else []) ++
          gapLoop range b.2 (rest.take (rest.length - rangeAbove.length)))

/-- `insert(range, gaps)`: the result, the set and the ranges reported as added. -/
def insertGaps (seqs : List Range) (range : Range) :
    Except Fault (Bool × List Range × List Range) :=
  match gapsOf seqs range with
  | .error fault => .error fault
  | .ok gaps =>
    match insertI seqs range with
    | .error fault => .error fault
    | .ok (grew, seqs) => .ok (grew, seqs, gaps)

/-- `missing_sequence_ranges`: the internal gaps. -/
def missingSequenceRanges : List Range → List Range
  | first :: second :: rest =>
    let missing := (next first.2, previous second.1)
    if missing.1 ≤ missing.2 then missing :: missingSequenceRanges (second :: rest)
    else missingSequenceRanges (second :: rest)
  | _ => []

def insert (seqs : List Range) (value : Int) : Except Fault (Bool × List Range) :=
  insertI seqs (value, value)

structure WellFormed (seqs : List Range) : Prop where
  canonical : Canonical seqs
  within : Within 0 maxValue seqs

theorem wellFormed_nil : WellFormed [] := ⟨canonical_nil, by simp [Within]⟩

/-- The largest value wraps when it is incremented, so a range that ends there is
not recognised as overlapping a stored one that starts later. -/
def Clash (seqs : List Range) (range : Range) : Prop :=
  range.2 = maxValue ∧ ∃ r ∈ seqs, r.2 = maxValue ∧ range.1 < r.1 ∧ 1 < r.1

section

variable {seqs : List Range}

theorem low_cons (r : Range) (rs : List Range) : low (r :: rs) = r.1 := rfl

theorem cumulativeAck_cons (r : Range) (rs : List Range) : cumulativeAck (r :: rs) = r.2 := rfl

theorem contains_iff (hc : Canonical seqs) (n : Int) : contains seqs n = true ↔ Covers seqs n := by
  have hsplit := below_append_reaching n seqs
  have hbelow : ∀ r ∈ below n seqs, r.2 < n := fun r hr => below_lt hr
  have hcr := canonical_reaching (v := n) hc
  unfold contains startsBy
  constructor
  · cases hr : reaching n seqs with
    | nil => simp
    | cons r rest =>
      intro h
      have hge := reaching_head hr
      refine ⟨r, ?_, by simpa using h, hge⟩
      rw [← hsplit, hr]
      simp
  · rintro ⟨r, hmem, hlo, hhi⟩
    rw [← hsplit] at hmem
    rcases List.mem_append.mp hmem with hmem | hmem
    · have := hbelow r hmem
      omega
    · cases hr : reaching n seqs with
      | nil => simp [hr] at hmem
      | cons x rest =>
        rw [hr] at hmem hcr
        rcases List.mem_cons.mp hmem with rfl | hmem
        · simpa using hlo
        · have hlt := hcr.head_lt hmem
          have hxn := reaching_head hr
          omega

theorem low_le (hc : Canonical seqs) {n : Int} (h : Covers seqs n) : low seqs ≤ n := by
  obtain ⟨r, hmem, hlo, hhi⟩ := h
  cases seqs with
  | nil => simp at hmem
  | cons x rest =>
    rw [low_cons]
    rcases List.mem_cons.mp hmem with rfl | hmem
    · exact hlo
    · have h₁ := hc.head_lt hmem
      have h₂ := hc.nonempty x (by simp)
      omega

theorem covers_low (hc : Canonical seqs) (h : seqs ≠ []) : Covers seqs (low seqs) := by
  cases seqs with
  | nil => exact absurd rfl h
  | cons x rest =>
    have := hc.nonempty x (by simp)
    exact ⟨x, by simp, by simp [low_cons], by simpa [low_cons] using this⟩

theorem covers_of_le_cumulativeAck (h : seqs ≠ []) {n : Int} (hlo : low seqs ≤ n)
    (hhi : n ≤ cumulativeAck seqs) : Covers seqs n := by
  cases seqs with
  | nil => exact absurd rfl h
  | cons x rest => exact ⟨x, by simp, hlo, hhi⟩

section

variable (hc : Canonical seqs)
include hc

theorem not_covers_succ_cumulativeAck (h : seqs ≠ []) : ¬ Covers seqs (cumulativeAck seqs + 1) := by
  cases seqs with
  | nil => exact absurd rfl h
  | cons x rest =>
    rintro ⟨r, hmem, hlo, hhi⟩
    rw [cumulativeAck_cons] at hlo hhi
    rcases List.mem_cons.mp hmem with rfl | hmem
    · omega
    · have := hc.head_lt hmem
      omega

theorem low_le_cumulativeAck (h : seqs ≠ []) : low seqs ≤ cumulativeAck seqs := by
  cases seqs with
  | nil => exact absurd rfl h
  | cons x rest => exact hc.nonempty x (by simp)

theorem le_cumulativeAck (h : seqs ≠ []) {n : Int}
    (hrun : ∀ m, low seqs ≤ m → m ≤ n → Covers seqs m) : n ≤ cumulativeAck seqs := by
  by_contra hlt
  have hle := low_le_cumulativeAck hc h
  exact not_covers_succ_cumulativeAck hc h (hrun _ (by omega) (by omega))

theorem le_high {n : Int} (h : Covers seqs n) : n ≤ high seqs := by
  obtain ⟨r, hmem, hlo, hhi⟩ := h
  obtain ⟨init, last, rfl⟩ : ∃ init last, seqs = init ++ [last] :=
    ⟨seqs.dropLast, seqs.getLast (List.ne_nil_of_mem hmem), (List.dropLast_concat_getLast _).symm⟩
  have hhigh : high (init ++ [last]) = last.2 := by simp [high]
  rcases List.mem_append.mp hmem with hmem | hmem
  · have h₁ := (canonical_append.mp hc).2.2 r hmem last (by simp)
    have h₂ := hc.nonempty last (by simp)
    omega
  · simp_all

theorem covers_high (h : seqs ≠ []) : Covers seqs (high seqs) := by
  have hlast := List.getLast_mem h
  have hhigh : high seqs = (seqs.getLast h).2 := by
    simp [high, List.getLast?_eq_some_getLast h]
  exact ⟨seqs.getLast h, hlast, hhigh ▸ hc.nonempty _ hlast, hhigh.le⟩

end

theorem high_le (wf : WellFormed seqs) (h : seqs ≠ []) : high seqs ≤ maxValue := by
  obtain ⟨r, hr, -, hle⟩ := covers_high wf.canonical h
  exact hle.trans (wf.within r hr).2

theorem low_nonneg (wf : WellFormed seqs) : 0 ≤ low seqs := by
  cases seqs with
  | nil => simp [low]
  | cons x rest => exact (wf.within x (by simp)).1

theorem cumulativeAck_lt_high (wf : WellFormed seqs) (hd : disjoint seqs = true) :
    cumulativeAck seqs + 1 < high seqs := by
  match seqs, wf, hd with
  | [], _, hd => cases hd
  | [_], _, hd => cases hd
  | first :: second :: rest, wf, _ =>
    have hlt := wf.canonical.head_lt (show second ∈ second :: rest by simp)
    have hle := wf.canonical.nonempty second (by simp)
    have hhigh := le_high wf.canonical ⟨second, by simp, hle, le_rfl⟩
    rw [cumulativeAck_cons]
    omega

theorem low_mono {after : List Range} (hc : Canonical seqs) (hca : Canonical after)
    (hne : seqs ≠ []) (hsub : ∀ n, Covers seqs n → Covers after n) : low after ≤ low seqs :=
  low_le hca (hsub _ (covers_low hc hne))

theorem ne_nil_of_covers {n : Int} (h : Covers seqs n) : seqs ≠ [] := by
  rintro rfl
  simp at h

theorem eq_singleton_of_not_disjoint (h : seqs ≠ []) (hd : disjoint seqs = false) :
    seqs = [(low seqs, cumulativeAck seqs)] := by
  cases seqs with
  | nil => exact absurd rfl h
  | cons x rest =>
    cases rest with
    | nil => rfl
    | cons y rest => simp [disjoint] at hd

end

section

variable {seqs : List Range} {range : Range}

theorem previousKey_le (hpos : 0 ≤ range.1) (hasc : range.1 ≤ range.2) :
    previousKey range.1 ≤ range.2 := by
  unfold previousKey ofValue minValue zero
  split <;> [split; skip] <;> omega

theorem previousKey_eq {first : Int} (hpos : 0 ≤ first) :
    previousKey first = max (first - 1) 0 := by
  unfold previousKey ofValue minValue zero
  split <;> [split; skip] <;> omega

theorem mergeAbove_spec (wf : WellFormed seqs) (hmax : range.2 ≤ maxValue)
    (hnew : startsBy (reaching range.2 seqs) range.1 = false)
    (hclash : ¬ Clash seqs range) :
    ∃ absorbed, reaching range.2 seqs = absorbed ++ (mergeAbove range (reaching range.2 seqs)).2 ∧
      (mergeAbove range (reaching range.2 seqs)).1.1 = range.1 ∧
      range.2 ≤ (mergeAbove range (reaching range.2 seqs)).1.2 ∧
      (mergeAbove range (reaching range.2 seqs)).1.2 ≤ maxValue ∧
      (∀ r ∈ absorbed, range.1 < r.1 ∧ r.1 ≤ range.2 + 1 ∧
        r.2 = (mergeAbove range (reaching range.2 seqs)).1.2) ∧
      (∀ r ∈ (mergeAbove range (reaching range.2 seqs)).2,
        (mergeAbove range (reaching range.2 seqs)).1.2 + 1 < r.1) ∧
      (∀ n, range.2 < n → n ≤ (mergeAbove range (reaching range.2 seqs)).1.2 →
        Covers absorbed n) := by
  have hcr := canonical_reaching (v := range.2) wf.canonical
  have hsub : ∀ r ∈ reaching range.2 seqs, r ∈ seqs := fun r hr => List.dropWhile_subset _ hr
  cases hr : reaching range.2 seqs with
  | nil =>
    refine ⟨[], by simp [mergeAbove], rfl, le_rfl, hmax, by simp, by simp [mergeAbove], ?_⟩
    intro n h₁ h₂
    simp only [mergeAbove] at h₂
    omega
  | cons a rest =>
    rw [hr] at hcr hsub
    have hge := reaching_head hr
    have hgt : range.1 < a.1 := by simpa [startsBy, hr] using hnew
    have hamax := (wf.within a (hsub a (by simp))).2
    simp only [mergeAbove]
    split
    · rename_i hnext
      have hstart : a.1 ≤ range.2 + 1 := by
        rcases lt_or_eq_of_le hmax with hlt | heq
        · rwa [next_of_lt hlt] at hnext
        · rw [heq, next_maxValue] at hnext
          have : (0 : Int) ≤ maxValue := by decide
          omega
      refine ⟨[a], by simp, rfl, hge, hamax, ?_, ?_, ?_⟩
      · intro r hmem
        obtain rfl := List.mem_singleton.mp hmem
        exact ⟨hgt, hstart, rfl⟩
      · exact fun r h => hcr.head_lt h
      · intro n h₁ h₂
        exact ⟨a, by simp, by omega, h₂⟩
    · rename_i hnext
      have hlt : range.2 < maxValue := by
        rcases lt_or_eq_of_le hmax with hlt | heq
        · exact hlt
        · rw [heq, next_maxValue] at hnext
          exact absurd ⟨heq, a, hsub a (by simp), by omega, hgt, by omega⟩ hclash
      rw [next_of_lt hlt] at hnext
      refine ⟨[], by simp, rfl, le_rfl, hmax, by simp, ?_, ?_⟩
      · intro r h
        rcases List.mem_cons.mp h with rfl | h
        · show range.2 + 1 < r.1
          omega
        · have h₁ := hcr.head_lt h
          show range.2 + 1 < r.1
          omega
      · intro n h₁ h₂
        simp only at h₂
        omega

/-- The start of the new range: the start of the first replaced range when that is lower. -/
private theorem mergeBelow_spec (newRange : Range) {replaced kept : List Range}
    (hc : Canonical (replaced ++ kept)) (hkept : ∀ r ∈ kept, newRange.1 < r.1) :
    (mergeBelow newRange (replaced ++ kept)).2 = newRange.2 ∧
    (mergeBelow newRange (replaced ++ kept)).1 ≤ newRange.1 ∧
    (∀ r ∈ replaced, (mergeBelow newRange (replaced ++ kept)).1 ≤ r.1) ∧
    ((mergeBelow newRange (replaced ++ kept)).1 = newRange.1 ∨
      ∃ r ∈ replaced, (mergeBelow newRange (replaced ++ kept)).1 = r.1) := by
  cases replaced with
  | nil =>
    cases kept with
    | nil => simp [mergeBelow]
    | cons b rest =>
      have := hkept b (by simp)
      simp [mergeBelow, show ¬ b.1 < newRange.1 by omega]
  | cons m rest =>
    have hm : ∀ r ∈ m :: rest, m.1 ≤ r.1 := by
      intro r hr
      rcases List.mem_cons.mp hr with rfl | hr
      · exact le_rfl
      · have h₁ := hc.head_lt (x := r) (by simp [hr])
        have h₂ := hc.nonempty m (by simp)
        omega
    simp only [mergeBelow, List.cons_append]
    split
    · exact ⟨rfl, by omega, hm, .inr ⟨m, by simp, rfl⟩⟩
    · refine ⟨rfl, le_rfl, fun r hr => ?_, .inl rfl⟩
      have := hm r hr
      omega

private theorem eraseBetween_append (front replaced kept : List Range) :
    eraseBetween front (replaced ++ kept) kept = .ok (front ++ kept) := by
  cases hcase : replaced ++ kept with
  | nil => simp [eraseBetween, (List.append_eq_nil_iff.mp hcase).2]
  | cons x xs =>
    have hlen := congrArg List.length hcase
    simp only [List.length_append, List.length_cons] at hlen
    simp only [eraseBetween, List.length_cons]
    rw [if_neg (by omega)]

/-- Replacing the ranges `replaced` by one that covers them, `range` and nothing else. -/
theorem splice_spec {front kept : List Range} (replaced : List Range) (newRange range : Range)
    (wf : WellFormed (front ++ (replaced ++ kept)))
    (hfront : ∀ a ∈ front, a.2 + 1 < newRange.1) (hkept : ∀ b ∈ kept, newRange.2 + 1 < b.1)
    (hrepl : ∀ r ∈ replaced, newRange.1 ≤ r.1 ∧ r.2 ≤ newRange.2)
    (hbounds : 0 ≤ newRange.1 ∧ newRange.2 ≤ maxValue) (hasc : range.1 ≤ range.2)
    (hrange : newRange.1 ≤ range.1 ∧ range.2 ≤ newRange.2)
    (hexact : ∀ n, newRange.1 ≤ n → n ≤ newRange.2 →
      Covers replaced n ∨ (range.1 ≤ n ∧ n ≤ range.2)) :
    WellFormed (front ++ newRange :: kept) ∧
      insertByEnd newRange (front ++ kept) = front ++ newRange :: kept ∧
      ∀ n, Covers (front ++ newRange :: kept) n ↔
        Covers (front ++ (replaced ++ kept)) n ∨ (range.1 ≤ n ∧ n ≤ range.2) := by
  obtain ⟨hcf, hcr, -⟩ := canonical_append.mp wf.canonical
  obtain ⟨hwf, hwr⟩ := within_append.mp wf.within
  have hck := (canonical_append.mp hcr).2.1
  refine ⟨⟨?_, ?_⟩, ?_, fun n => covers_splice hrepl hrange hexact n⟩
  · exact canonical_between hcf hck (by omega) hfront hkept
  · exact within_append.mpr ⟨hwf, within_cons.mpr ⟨hbounds, (within_append.mp hwr).2⟩⟩
  · refine insertByEnd_between (fun a ha => ?_) (fun b hb => ?_)
    · have := hfront a ha
      omega
    · have h₁ := hkept b hb
      have h₂ := hck.nonempty b hb
      omega

theorem covers_of_startsBy {range : Range} {n : Int}
    (h : startsBy (reaching range.2 seqs) range.1 = true) (h₁ : range.1 ≤ n) (h₂ : n ≤ range.2) :
    Covers seqs n := by
  cases hr : reaching range.2 seqs with
  | nil => simp [startsBy, hr] at h
  | cons a rest =>
    have hge := reaching_head hr
    have hle : a.1 ≤ range.1 := by simpa [startsBy, hr] using h
    have hmem : a ∈ seqs := List.dropWhile_subset _ (show a ∈ reaching range.2 seqs by simp [hr])
    exact ⟨a, hmem, by omega, by omega⟩

theorem insertI_spec (range : Range) (wf : WellFormed seqs) (hpos : 0 ≤ range.1) (hasc : range.1 ≤ range.2)
    (hmax : range.2 ≤ maxValue) (hclash : ¬ Clash seqs range) :
    ∃ grew after, insertI seqs range = .ok (grew, after) ∧ WellFormed after ∧
      ∀ n, Covers after n ↔ Covers seqs n ∨ (range.1 ≤ n ∧ n ≤ range.2) := by
  unfold insertI
  rw [if_neg (by omega)]
  cases hnew : startsBy (reaching range.2 seqs) range.1 with
  | true =>
    refine ⟨false, seqs, by simp, wf, fun n => ⟨.inl, ?_⟩⟩
    rintro (h | ⟨h₁, h₂⟩)
    · exact h
    · exact covers_of_startsBy hnew h₁ h₂
  | false =>
    simp only [Bool.false_eq_true, if_false]
    obtain ⟨absorbed, habove, hfirst, hsecond, hbound, habs, hclear, hfill⟩ :=
      mergeAbove_spec wf hmax hnew hclash
    generalize mergeAbove range (reaching range.2 seqs) = above at *
    have hkey := previousKey_le hpos hasc
    have hkeyEq := previousKey_eq hpos
    generalize previousKey range.1 = key at *
    have hlow : ∀ r ∈ below key seqs, r.2 < key := fun r hr => below_lt hr
    -- the ranges from `range_below` to `range_above`, all replaced by the new one
    obtain ⟨replaced, hbelow, hrepl, hfill⟩ : ∃ replaced, reaching key seqs = replaced ++ above.2 ∧
        (∀ r ∈ replaced, key ≤ r.2 ∧ r.2 ≤ above.1.2) ∧
        ∀ n, range.2 < n → n ≤ above.1.2 → Covers replaced n := by
      have hsplit : reaching key seqs = below range.2 (reaching key seqs) ++ absorbed ++ above.2 := by
        rw [List.append_assoc, ← habove, ← reaching_reaching hkey, below_append_reaching]
      refine ⟨below range.2 (reaching key seqs) ++ absorbed, hsplit, ?_, ?_⟩
      · intro r hr
        have hmem : r ∈ reaching key seqs := by
          rw [hsplit]
          exact List.mem_append_left _ hr
        refine ⟨reaching_ge wf.canonical hmem, ?_⟩
        rcases List.mem_append.mp hr with hr | hr
        · have := below_lt hr
          omega
        · exact (habs r hr).2.2.le
      · intro n h₁ h₂
        exact (covers_append _ _ n).mpr (.inr (hfill n h₁ h₂))
    have hseqs : seqs = below key seqs ++ (replaced ++ above.2) := by
      rw [← hbelow, below_append_reaching]
    have wf' : WellFormed (below key seqs ++ (replaced ++ above.2)) := hseqs ▸ wf
    obtain ⟨hcl, hcr, hcross⟩ := canonical_append.mp wf'.canonical
    obtain ⟨hwl, hwr⟩ := within_append.mp wf'.within
    rw [hbelow]
    obtain ⟨hend, hstart, hstarts, horigin⟩ := mergeBelow_spec above.1 hcr
      (fun r hr => by have := hclear r hr; omega)
    have hbounds : (∀ a ∈ below key seqs, a.2 + 1 < (mergeBelow above.1 (replaced ++ above.2)).1) ∧
        0 ≤ (mergeBelow above.1 (replaced ++ above.2)).1 := by
      rcases horigin with h | ⟨r, hr, h⟩
      · rw [h, hfirst]
        refine ⟨fun a ha => ?_, hpos⟩
        have h₁ := hlow a ha
        have h₂ := (hwl a ha).1
        have h₃ := hcl.nonempty a ha
        omega
      · rw [h]
        exact ⟨fun a ha => hcross a ha r (by simp [hr]), (hwr r (by simp [hr])).1⟩
    generalize mergeBelow above.1 (replaced ++ above.2) = newRange at *
    have hexact : ∀ n, newRange.1 ≤ n → n ≤ newRange.2 →
        Covers replaced n ∨ (range.1 ≤ n ∧ n ≤ range.2) := by
      intro n h₁ h₂
      by_cases hlt : n < range.1
      · left
        rcases horigin with h | ⟨r, hr, h⟩
        · omega
        · have := (hrepl r hr).1
          exact ⟨r, hr, by omega, by omega⟩
      · by_cases hgt : range.2 < n
        · exact .inl (hfill n hgt (by omega))
        · exact .inr ⟨by omega, by omega⟩
    obtain ⟨hwf, hins, hcov⟩ := splice_spec replaced newRange range wf' hbounds.1
      (fun b hb => by have := hclear b hb; omega)
      (fun r hr => ⟨hstarts r hr, by have := (hrepl r hr).2; omega⟩)
      ⟨hbounds.2, by omega⟩ hasc ⟨by omega, by omega⟩ hexact
    rw [← hseqs] at hcov
    refine ⟨true, _, ?_, hwf, hcov⟩
    simp only [eraseBetween_append, hins]

theorem insert_spec {value : Int} (wf : WellFormed seqs) (hpos : 0 ≤ value)
    (hmax : value ≤ maxValue) :
    ∃ grew after, insert seqs value = .ok (grew, after) ∧ WellFormed after ∧
      ∀ n, Covers after n ↔ Covers seqs n ∨ n = value := by
  have hclash : ¬ Clash seqs (value, value) := by
    rintro ⟨hlast, r, hr, hend, hlow, -⟩
    have hne := wf.canonical.nonempty r hr
    omega
  obtain ⟨grew, after, heq, hwf, hcov⟩ :=
    insertI_spec (value, value) wf hpos le_rfl hmax hclash
  refine ⟨grew, after, heq, hwf, ?_⟩
  intro n
  rw [hcov]
  constructor
  · rintro (h | h)
    · exact .inl h
    · exact .inr (by omega)
  · rintro (h | rfl)
    · exact .inl h
    · exact .inr ⟨le_rfl, le_rfl⟩

theorem insertI_reset (range : Range) (hpos : 0 ≤ range.1) (hasc : range.1 ≤ range.2) (hmax : range.2 ≤ maxValue) :
    ∃ grew after, insertI reset range = .ok (grew, after) ∧ WellFormed after ∧
      ∀ n, Covers after n ↔ range.1 ≤ n ∧ n ≤ range.2 := by
  have hclash : ¬ Clash [] range := by
    rintro ⟨-, r, hr, -⟩
    cases hr
  obtain ⟨grew, after, heq, hwf, hcov⟩ :=
    insertI_spec range wellFormed_nil hpos hasc hmax hclash
  refine ⟨grew, after, heq, hwf, ?_⟩
  intro n
  rw [hcov]
  simp

theorem insertI_grew {grew : Bool} {after : List Range} (range : Range) (wf : WellFormed seqs)
    (hasc : range.1 ≤ range.2) (heq : insertI seqs range = .ok (grew, after)) :
    grew = true ↔ ∃ n, (range.1 ≤ n ∧ n ≤ range.2) ∧ ¬ Covers seqs n := by
  have hsub : ∀ r ∈ reaching range.2 seqs, r ∈ seqs := fun r hr => List.dropWhile_subset _ hr
  have hgrew : grew = !startsBy (reaching range.2 seqs) range.1 := by
    unfold insertI at heq
    rw [if_neg (by omega)] at heq
    split at heq
    · rename_i hstarts
      cases heq
      simp [hstarts]
    · rename_i hstarts
      dsimp only at heq
      split at heq
      · cases heq
      · cases heq
        simpa using hstarts
  rw [hgrew]
  cases hreach : reaching range.2 seqs with
  | nil =>
    -- Nothing reaches the end of the range, so the end is missing.
    have hmissing : ¬ Covers seqs range.2 := by
      intro hcov
      have hcontains := (contains_iff wf.canonical range.2).mpr hcov
      simp [contains, hreach, startsBy] at hcontains
    simp only [startsBy, Bool.not_false, true_iff]
    exact ⟨range.2, ⟨hasc, le_rfl⟩, hmissing⟩
  | cons a rest =>
    rw [hreach] at hsub
    have hmem : a ∈ seqs := hsub a (by simp)
    have hge := reaching_head hreach
    simp only [startsBy, Bool.not_eq_true', decide_eq_false_iff_not, not_le]
    constructor
    · intro hlt
      by_cases hend : a.1 ≤ range.2
      · refine ⟨a.1 - 1, ⟨by omega, by omega⟩, ?_⟩
        exact (wf.canonical.maximalRun hmem).before
      · refine ⟨range.2, ⟨hasc, le_rfl⟩, ?_⟩
        intro hcov
        have hcontains := (contains_iff wf.canonical range.2).mpr hcov
        simp only [contains, hreach, startsBy, decide_eq_true_eq] at hcontains
        exact hend hcontains
    · rintro ⟨n, ⟨hlo, hhi⟩, hmissing⟩
      by_contra hle
      exact hmissing ⟨a, hmem, by omega, by omega⟩

section

variable (range : Range) (wf : WellFormed seqs) (hpos : 0 ≤ range.1) (hasc : range.1 ≤ range.2)
include wf hpos hasc

theorem insertI_clash (hclash : Clash seqs range) :
    ∃ grew after, insertI seqs range = .ok (grew, after) ∧ WellFormed after ∧
      (∀ n, Covers after n → Covers seqs n) ∧ Covers after maxValue := by
  obtain ⟨hmax, r, hr, hrmax, hrlow, hrone⟩ := hclash
  have hkey := previousKey_le hpos hasc
  obtain ⟨front, back, hsplit⟩ := List.append_of_mem hr
  obtain ⟨hcf, hcr, hcross⟩ := canonical_append.mp (hsplit ▸ wf.canonical)
  have hback : back = [] := by
    refine List.eq_nil_iff_forall_not_mem.mpr fun x hx => ?_
    have h₁ := hcr.head_lt hx
    have h₂ := hcr.nonempty x (by simp [hx])
    have h₃ := (wf.within x (by rw [hsplit]; simp [hx])).2
    omega
  subst hback
  have hfront : ∀ a ∈ front, a.2 < maxValue := by
    intro a ha
    have h₁ := hcross a ha r (by simp)
    have h₂ := hcr.nonempty r (by simp)
    omega
  have hreach : reaching range.2 seqs = [r] := by
    rw [hsplit, hmax, reaching_append_of_lt hfront, reaching_cons_of_ge hrmax.ge]
  generalize hkeyEq : previousKey range.1 = key at *
  have hbelow : reaching key seqs = below range.2 (reaching key seqs) ++ [r] := by
    rw [← hreach, ← reaching_reaching hkey, below_append_reaching]
  have hlow : ∀ a ∈ below key seqs, a.2 < maxValue := by
    intro a ha
    have := below_lt ha
    omega
  have hseqs : seqs = below key seqs ++ (below range.2 (reaching key seqs) ++ [r]) := by
    rw [← hbelow, below_append_reaching]
  have hsub : ∀ a ∈ below key seqs ++ [r], a ∈ seqs := by
    intro a ha
    rcases List.mem_append.mp ha with ha | ha
    · exact List.takeWhile_subset _ ha
    · obtain rfl : a = r := by simpa using ha
      exact hr
  have hnewEnd : ∀ rs, (mergeBelow range rs).2 = maxValue := by
    intro rs
    unfold mergeBelow
    split
    · exact hmax
    · split <;> exact hmax
  refine ⟨true, below key seqs ++ [r], ?_, ⟨?_, fun a ha => wf.within a (hsub a ha)⟩,
    fun n h => h.imp fun a ha => ⟨hsub a ha.1, ha.2⟩, r, by simp, ?_, hrmax.ge⟩
  · unfold insertI
    rw [if_neg (by omega), hreach, hkeyEq]
    simp only [startsBy, decide_eq_true_eq, mergeAbove, hmax, next_maxValue,
      show ¬ r.1 ≤ range.1 by omega, show ¬ 1 ≥ r.1 by omega, if_false]
    rw [hbelow, eraseBetween_append]
    simp only
    rw [insertByEnd_present (by rw [hnewEnd]; exact hlow) (by rw [hnewEnd]; exact hrmax)]
  · have hc := wf.canonical
    rw [hseqs] at hc
    obtain ⟨h₁, h₂, h₃⟩ := canonical_append.mp hc
    exact canonical_append.mpr ⟨h₁, (canonical_append.mp h₂).2.1,
      fun a ha b hb => h₃ a ha b (List.mem_append_right _ hb)⟩
  · exact (hcr.nonempty r (by simp)).trans hrmax.le

theorem insertI_weak (hmax : range.2 ≤ maxValue) :
    ∃ grew after, insertI seqs range = .ok (grew, after) ∧ WellFormed after ∧
      Covers after range.2 ∧ (∀ n, Covers seqs n → ∃ m, n ≤ m ∧ Covers after m) ∧
      ∀ n, Covers after n → Covers seqs n ∨ (range.1 ≤ n ∧ n ≤ range.2) := by
  by_cases hclash : Clash seqs range
  · obtain ⟨grew, after, heq, hwf, hsub, hlast⟩ := insertI_clash range wf hpos hasc hclash
    refine ⟨grew, after, heq, hwf, by rw [hclash.1]; exact hlast, fun n hn => ?_,
      fun n hn => .inl (hsub n hn)⟩
    obtain ⟨r, hr, -, hle⟩ := hn
    exact ⟨maxValue, hle.trans (wf.within r hr).2, hlast⟩
  · obtain ⟨grew, after, heq, hwf, hcov⟩ := insertI_spec range wf hpos hasc hmax hclash
    exact ⟨grew, after, heq, hwf, (hcov _).mpr (.inr ⟨hasc, le_rfl⟩),
      fun n hn => ⟨n, le_rfl, (hcov n).mpr (.inl hn)⟩, fun n hn => (hcov n).mp hn⟩

end

theorem gapsOf_fromLow {last : Int} (wf : WellFormed seqs) (hne : seqs ≠ [])
    (hasc : low seqs ≤ last) : ∃ gaps, gapsOf seqs (low seqs, last) = .ok gaps := by
  cases seqs with
  | nil => exact absurd rfl hne
  | cons x rest =>
    rw [low_cons] at hasc ⊢
    have h₁ := wf.canonical.nonempty x (by simp)
    have h₂ := (wf.within x (by simp)).1
    unfold gapsOf
    rw [if_neg (by simp only; omega)]
    split
    · exact ⟨_, rfl⟩
    · rename_i hstart
      have hlen : (mergeAbove (x.1, last) (reaching last (x :: rest))).2.length ≤ rest.length := by
        have hle : (mergeAbove (x.1, last) (reaching last (x :: rest))).2.length ≤
            (reaching last (x :: rest)).length := by
          unfold mergeAbove
          split
          · simp_all
          · rename_i heq
            rw [heq]
            split <;> simp
        by_cases hend : last ≤ x.2
        · rw [reaching_cons_of_ge hend] at hstart
          simp [startsBy] at hstart
        · have hdrop : reaching last (x :: rest) = reaching last rest := by
            simp [reaching, show x.2 < last by omega]
          rw [hdrop] at hle ⊢
          exact hle.trans (List.length_dropWhile_le _ _)
      simp only
      rw [reaching_cons_of_ge (by rw [previousKey_eq h₂]; omega)]
      simp only
      rw [if_neg (by omega)]
      exact ⟨_, rfl⟩

end

end OpenDDS.Source.DisjointSequence
