import OpenDDS.Source.DisjointSequence

/-!
# The ranges an insertion reports as added

`insert(range, added)` lists what of its range was missing before the call. The list is
built from the two iterators of the merge: it starts behind `range_below`, the first
stored range that ends at or after the number in front of `range`, and takes for granted
that this range exists, is replaced by the insertion and is a single number where it
reaches beyond the start of `range`.
-/
namespace OpenDDS.Guarantees.AddedRanges
open Library.RangeList Source.SequenceNumber Source.DisjointSequence

/-- The added ranges ascend, do not meet and make up what of `range` was missing. -/
structure Reports (seqs : List Range) (range : Range) (grew : Bool) (gaps : List Range) : Prop where
  nonempty : ∀ r ∈ gaps, r.1 ≤ r.2
  ascending : gaps.Pairwise fun a b => a.2 < b.1
  union : ∀ n, Covers gaps n ↔ (range.1 ≤ n ∧ n ≤ range.2) ∧ ¬ Covers seqs n
  returned : gaps = [] ↔ grew = false

/-- The lowest stored range that ends at `first - 1` or later. -/
def FirstFrom (seqs : List Range) (first : Int) (b : Range) : Prop :=
  b ∈ seqs ∧ first - 1 ≤ b.2 ∧ ∀ r ∈ seqs, first - 1 ≤ r.2 → b.2 ≤ r.2

/-- What the list of gaps takes for granted of `range_below` and `range_above`. -/
def Expected (seqs : List Range) (range : Range) : Prop :=
  (∃ b, FirstFrom seqs range.1 b ∧ b.1 ≤ range.2 + 1 ∧
    (b.2 ≤ range.1 ∨ (b.1 = b.2 ∧ b.2 ≠ 1))) ∧ ¬ Clash seqs range

section

variable {range : Range} {ms : List Range}

/-- The loop reports what lies behind `lastGap` up to the end of `range` outside `ms`. -/
theorem gapLoop_spec (hmax : range.2 ≤ maxValue) (lastGap : Int) (hpos : 0 ≤ lastGap)
    (hc : Canonical ms) (hgap : ∀ m ∈ ms, lastGap + 1 < m.1) (hstart : ∀ m ∈ ms, m.1 ≤ range.2 + 1) :
    (∀ r ∈ gapLoop range lastGap ms, lastGap < r.1 ∧ r.1 ≤ r.2) ∧
      (gapLoop range lastGap ms).Pairwise (fun a b => a.2 < b.1) ∧
      ∀ n, Covers (gapLoop range lastGap ms) n ↔ (lastGap < n ∧ n ≤ range.2) ∧ ¬ Covers ms n := by
  induction ms generalizing lastGap with
  | nil =>
    unfold gapLoop
    split
    · rw [next_of_lt (by omega)]
      refine ⟨?_, List.pairwise_singleton _ _, ?_⟩
      · intro r hr
        obtain rfl := List.mem_singleton.mp hr
        constructor <;> simp only <;> omega
      · simp only [covers_cons, covers_nil, or_false, not_false_eq_true, and_true]
        omega
    · refine ⟨by simp, List.Pairwise.nil, ?_⟩
      simp only [covers_nil, not_false_eq_true, and_true, false_iff]
      omega
  | cons m rest ih =>
    have hfirst := hgap m (by simp)
    have hbound := hstart m (by simp)
    obtain ⟨hne, hlt, hcr⟩ := canonical_cons.mp hc
    have hend : ofValue (min (previous m.1) range.2) = m.1 - 1 := by
      rw [previous_of_ne (by omega), min_eq_left (by omega), ofValue_of_pos (by omega)]
    obtain ⟨hstarts, hasc, hcov⟩ := ih m.2 (by omega) hcr hlt (fun x hx => hstart x (by simp [hx]))
    have hafter : ∀ n, Covers rest n → m.2 < n := by
      rintro n ⟨x, hx, hle, -⟩
      have := hlt x hx
      omega
    rw [gapLoop, hend, next_of_lt (by omega)]
    refine ⟨?_, List.pairwise_cons.mpr ⟨?_, hasc⟩, ?_⟩
    · intro r hr
      rcases List.mem_cons.mp hr with rfl | hr
      · constructor <;> simp only <;> omega
      · have := hstarts r hr
        omega
    · intro r hr
      have := (hstarts r hr).1
      omega
    · intro n
      have hn := hafter n
      simp only [covers_cons, hcov]
      by_cases hr : Covers rest n
      · have := hn hr
        simp only [hr, not_true_eq_false, and_false, or_false, or_true, iff_false]
        omega
      · simp only [hr, not_false_eq_true, and_true, or_false]
        omega

end

variable {seqs : List Range} {range : Range}

theorem firstFrom_of_reaching {b : Range} {rest : List Range} (wf : WellFormed seqs)
    (hpos : 0 ≤ range.1) (h : reaching (previousKey range.1) seqs = b :: rest) :
    FirstFrom seqs range.1 b := by
  have hkey := previousKey_eq hpos
  have hhead := reaching_head h
  have hsplit := below_append_reaching (previousKey range.1) seqs
  have hcr := canonical_reaching (v := previousKey range.1) wf.canonical
  rw [h] at hsplit hcr
  refine ⟨?_, by omega, ?_⟩
  · rw [← hsplit]
    simp
  · intro r hr hle
    rw [← hsplit] at hr
    rcases List.mem_append.mp hr with hlow | hhigh
    · have h₁ := below_lt hlow
      have hmem : r ∈ seqs := List.takeWhile_subset _ hlow
      have h₂ := (wf.within r hmem).1
      have h₃ := wf.canonical.nonempty r hmem
      omega
    · rcases List.mem_cons.mp hhigh with rfl | hhigh
      · exact le_rfl
      · have h₁ := hcr.head_lt hhigh
        have h₂ := hcr.nonempty r (by simp [hhigh])
        omega

theorem FirstFrom.unique {first : Int} {b b' : Range} (hc : Canonical seqs)
    (h : FirstFrom seqs first b) (h' : FirstFrom seqs first b') : b' = b := by
  have h₁ := h.2.2 b' h'.1 h'.2.1
  have h₂ := h'.2.2 b h.1 h.2.1
  have hne := hc.nonempty b h.1
  have hne' := hc.nonempty b' h'.1
  rcases hc.clear h.1 h'.1 with heq | hlt | hlt
  · exact heq
  · omega
  · omega

theorem not_firstFrom_of_reaching (wf : WellFormed seqs) (hpos : 0 ≤ range.1)
    (h : reaching (previousKey range.1) seqs = []) (b : Range) : ¬ FirstFrom seqs range.1 b := by
  rintro ⟨hmem, hle, -⟩
  have hkey := previousKey_eq hpos
  have hsplit := below_append_reaching (previousKey range.1) seqs
  rw [h, List.append_nil] at hsplit
  have h₁ := below_lt (hsplit.symm ▸ hmem)
  have h₂ := (wf.within b hmem).1
  have h₃ := wf.canonical.nonempty b hmem
  omega

theorem startsBy_iff (wf : WellFormed seqs) (hasc : range.1 ≤ range.2) :
    startsBy (reaching range.2 seqs) range.1 = true ↔
      ∀ n, range.1 ≤ n → n ≤ range.2 → Covers seqs n := by
  constructor
  · exact fun h n hlo hhi => covers_of_startsBy h hlo hhi
  · intro hall
    obtain ⟨r, hr, hlo, hhi⟩ := hall range.2 hasc le_rfl
    have hstart : r.1 ≤ range.1 := by
      by_contra hlt
      exact (wf.canonical.maximalRun hr).before (hall _ (by omega) (by omega))
    have hsplit := below_append_reaching range.2 seqs
    rw [← hsplit] at hr
    rcases List.mem_append.mp hr with hlow | hhigh
    · have := below_lt hlow
      omega
    · cases hreach : reaching range.2 seqs with
      | nil => simp [hreach] at hhigh
      | cons a rest =>
        have hcr := canonical_reaching (v := range.2) wf.canonical
        rw [hreach] at hhigh hcr
        rcases List.mem_cons.mp hhigh with rfl | hhigh
        · simpa [startsBy] using hstart
        · have h₁ := hcr.head_lt hhigh
          have h₂ := reaching_head hreach
          omega

theorem insertGaps_eq_ok {grew : Bool} {after gaps : List Range} :
    insertGaps seqs range = .ok (grew, after, gaps) ↔
      gapsOf seqs range = .ok gaps ∧ insertI seqs range = .ok (grew, after) := by
  unfold insertGaps
  cases gapsOf seqs range with
  | error fault => simp
  | ok gaps' =>
    cases insertI seqs range with
    | error fault => simp
    | ok result =>
      simp only [Except.ok.injEq, Prod.mk.injEq]
      constructor
      · rintro ⟨rfl, rfl, rfl⟩
        exact ⟨rfl, rfl⟩
      · rintro ⟨rfl, rfl⟩
        exact ⟨rfl, rfl, rfl⟩

section

variable {above ms : List Range} {b : Range} (hasc : range.1 ≤ range.2)
  (hnew : startsBy (reaching range.2 seqs) range.1 = false)
  (habove : (mergeAbove range (reaching range.2 seqs)).2 = above)

include hasc hnew habove

theorem gapsOf_replaced (hbelow : reaching (previousKey range.1) seqs = b :: ms ++ above) :
    gapsOf seqs range = .ok ((if range.1 < b.2 then [(range.1, previous b.2)] else []) ++
      gapLoop range b.2 ms) := by
  unfold gapsOf
  rw [if_neg (by omega), hnew, hbelow, habove]
  have hlen : ¬ ms.length + above.length + 1 ≤ above.length := by omega
  simp [hlen]

theorem gapsOf_above (hbelow : reaching (previousKey range.1) seqs = above) (hne : above ≠ []) :
    gapsOf seqs range = .error .iteratorRange := by
  unfold gapsOf
  rw [if_neg (by omega), hnew, hbelow, habove]
  cases above with
  | nil => exact absurd rfl hne
  | cons a rest => simp

omit habove in
theorem gapsOf_none (hbelow : reaching (previousKey range.1) seqs = []) :
    gapsOf seqs range = .ok [] := by
  unfold gapsOf
  rw [if_neg (by omega), hnew, hbelow]
  rfl

end

theorem replaced_split (wf : WellFormed seqs) (hpos : 0 ≤ range.1) (hasc : range.1 ≤ range.2)
    (hmax : range.2 ≤ maxValue) (hnew : startsBy (reaching range.2 seqs) range.1 = false)
    (hclash : ¬ Clash seqs range) :
    ∃ replaced, reaching (previousKey range.1) seqs =
        replaced ++ (mergeAbove range (reaching range.2 seqs)).2 ∧
      (∀ r ∈ replaced, r.1 ≤ range.2 + 1) ∧
      ∀ r ∈ (mergeAbove range (reaching range.2 seqs)).2, range.2 + 1 < r.1 := by
  obtain ⟨absorbed, habove, -, hend, -, habs, hclear, -⟩ := mergeAbove_spec wf hmax hnew hclash
  have hkey := previousKey_le hpos hasc
  refine ⟨below range.2 (reaching (previousKey range.1) seqs) ++ absorbed, ?_, ?_, ?_⟩
  · rw [List.append_assoc, ← habove, ← reaching_reaching hkey, below_append_reaching]
  · intro r hr
    rcases List.mem_append.mp hr with hlow | hhigh
    · have h₁ := below_lt hlow
      have hmem : r ∈ reaching (previousKey range.1) seqs := List.takeWhile_subset _ hlow
      have h₂ := (canonical_reaching wf.canonical).nonempty r hmem
      omega
    · exact (habs r hhigh).2.1
  · intro r hr
    have := hclear r hr
    omega

theorem covers_replaced {replaced above : List Range} (hpos : 0 ≤ range.1)
    (hsplit : reaching (previousKey range.1) seqs = replaced ++ above)
    (hclear : ∀ r ∈ above, range.2 + 1 < r.1) {n : Int} (hlo : range.1 ≤ n) (hhi : n ≤ range.2) :
    Covers seqs n ↔ Covers replaced n := by
  have hkey := previousKey_eq hpos
  have hlow : ¬ Covers (below (previousKey range.1) seqs) n := by
    rintro ⟨r, hr, h₁, h₂⟩
    have := below_lt hr
    omega
  have hhigh : ¬ Covers above n := by
    rintro ⟨r, hr, h₁, h₂⟩
    have := hclear r hr
    omega
  rw [← below_append_reaching (previousKey range.1) seqs, hsplit]
  simp [hlow, hhigh]

/-- The list is right when `range_below` ends by the start of `range` or is one number. -/
theorem reports_of_expected {ms above : List Range} {b : Range} (wf : WellFormed seqs)
    (hpos : 0 ≤ range.1) (hasc : range.1 ≤ range.2) (hmax : range.2 ≤ maxValue)
    (hbelow : reaching (previousKey range.1) seqs = b :: ms ++ above)
    (hstart : ∀ r ∈ b :: ms, r.1 ≤ range.2 + 1) (hclear : ∀ r ∈ above, range.2 + 1 < r.1)
    (hb : b.2 ≤ range.1 ∨ (b.1 = b.2 ∧ b.2 ≠ 1)) {grew : Bool} {gaps : List Range}
    (hgrew : grew = true ↔ ∃ n, (range.1 ≤ n ∧ n ≤ range.2) ∧ ¬ Covers seqs n)
    (hgaps : gaps = (if range.1 < b.2 then [(range.1, previous b.2)] else []) ++
      gapLoop range b.2 ms) :
    Reports seqs range grew gaps := by
  have hkey := previousKey_eq hpos
  have hfirst := reaching_head (show reaching _ seqs = b :: (ms ++ above) from hbelow)
  have hcr : Canonical (b :: ms) := by
    have h := canonical_reaching (v := previousKey range.1) wf.canonical
    rw [hbelow] at h
    exact (canonical_append.mp h).1
  obtain ⟨hne, hlt, hcm⟩ := canonical_cons.mp hcr
  have hbstart := hstart b (by simp)
  obtain ⟨hstarts, hpair, hcov⟩ := gapLoop_spec hmax b.2 (by omega) hcm hlt
    (fun m hm => hstart m (by simp [hm]))
  have hstored : ∀ n, range.1 ≤ n → n ≤ range.2 →
      (Covers seqs n ↔ (b.1 ≤ n ∧ n ≤ b.2) ∨ Covers ms n) := by
    intro n hlo hhi
    rw [covers_replaced hpos hbelow hclear hlo hhi, covers_cons]
  have hbehind : ∀ n, Covers ms n → b.2 < n := by
    rintro n ⟨x, hx, hle, -⟩
    have := hlt x hx
    omega
  have hnonempty : ∀ r ∈ gaps, r.1 ≤ r.2 := by
    intro r hr
    rw [hgaps] at hr
    rcases List.mem_append.mp hr with hr | hr
    · split at hr
      · obtain rfl := List.mem_singleton.mp hr
        rw [previous_of_ne (by omega)]
        omega
      · cases hr
    · exact (hstarts r hr).2
  have hunion : ∀ n, Covers gaps n ↔ (range.1 ≤ n ∧ n ≤ range.2) ∧ ¬ Covers seqs n := by
    intro n
    have hmiss : (range.1 ≤ n ∧ n ≤ range.2) ∧ ¬ Covers seqs n ↔
        (range.1 ≤ n ∧ n ≤ range.2) ∧ ¬ (b.1 ≤ n ∧ n ≤ b.2) ∧ ¬ Covers ms n := by
      refine and_congr_right ?_
      rintro ⟨hlo, hhi⟩
      rw [hstored n hlo hhi, not_or]
    rw [hmiss, hgaps, covers_append, hcov]
    clear hgrew
    split
    · rw [previous_of_ne (by omega)]
      simp only [covers_cons, covers_nil, or_false]
      by_cases hm : Covers ms n
      · have := hbehind n hm
        simp only [hm, not_true_eq_false, and_false, or_false, iff_false]
        omega
      · simp only [hm, not_false_eq_true, and_true]
        omega
    · simp only [covers_nil, false_or]
      by_cases hm : Covers ms n
      · simp [hm]
      · simp only [hm, not_false_eq_true, and_true]
        omega
  refine ⟨hnonempty, ?_, hunion, ?_⟩
  · rw [hgaps, List.pairwise_append]
    refine ⟨?_, hpair, ?_⟩
    · split
      · exact List.pairwise_singleton _ _
      · exact List.Pairwise.nil
    · intro a ha r hr
      have h₁ := (hstarts r hr).1
      split at ha
      · obtain rfl := List.mem_singleton.mp ha
        rw [previous_of_ne (by omega)]
        omega
      · cases ha
  · have hnone : gaps = [] ↔ ¬ ∃ n, Covers gaps n := by
      constructor
      · rintro rfl ⟨n, hn⟩
        exact covers_nil n hn
      · intro hno
        refine List.eq_nil_iff_forall_not_mem.mpr fun r hr => hno ⟨r.1, r, hr, le_rfl, ?_⟩
        exact hnonempty r hr
    rw [hnone, ← Bool.not_eq_true, hgrew]
    simp only [hunion]

theorem insertGaps_contained (hasc : range.1 ≤ range.2)
    (hold : startsBy (reaching range.2 seqs) range.1 = true) :
    insertGaps seqs range = .ok (false, seqs, []) := by
  refine insertGaps_eq_ok.mpr ⟨?_, ?_⟩
  · unfold gapsOf
    rw [if_neg (by omega), hold]
    rfl
  · unfold insertI
    rw [if_neg (by omega), hold]
    rfl

theorem covers_reported {b : Range} (ms : List Range) (hasc : range.1 < b.2)
    (hne : b.1 ≤ b.2) (hb : ¬ (b.1 = b.2 ∧ b.2 ≠ 1)) :
    ∃ n, Covers ((if range.1 < b.2 then [(range.1, previous b.2)] else []) ++
      gapLoop range b.2 ms) n ∧ b.1 ≤ n ∧ n ≤ b.2 := by
  rw [if_pos hasc]
  by_cases hone : b.2 = 1
  · refine ⟨b.2, ?_, hne, le_rfl⟩
    have hprev : previous b.2 = maxValue := by simp [previous, hone]
    have hmax : (1 : Int) ≤ maxValue := by decide
    rw [hprev]
    exact ⟨(range.1, maxValue), by simp, hasc.le, by simp only; omega⟩
  · refine ⟨max b.1 range.1, ?_, by omega, by omega⟩
    rw [previous_of_ne hone]
    exact ⟨(range.1, b.2 - 1), by simp, by simp only; omega, by simp only; omega⟩

theorem clash_reported {gaps : List Range} (wf : WellFormed seqs) (hpos : 0 ≤ range.1)
    (hasc : range.1 ≤ range.2) (hclash : Clash seqs range) (hgaps : gapsOf seqs range = .ok gaps) :
    Covers gaps maxValue ∧ Covers seqs maxValue := by
  obtain ⟨hmax, r, hr, hrmax, hrlow, hrone⟩ := hclash
  have hkey := previousKey_le hpos hasc
  have hkeyPos := previousKey_eq hpos
  have hrne := wf.canonical.nonempty r hr
  have hcr := canonical_reaching (v := range.2) wf.canonical
  have hreach : reaching range.2 seqs = [r] := by
    have hmem : r ∈ reaching range.2 seqs := by
      have hin := hr
      rw [← below_append_reaching range.2 seqs] at hin
      rcases List.mem_append.mp hin with hlow | hhigh
      · have := below_lt hlow
        omega
      · exact hhigh
    have hends : ∀ x ∈ reaching range.2 seqs, x.2 = maxValue := by
      intro x hx
      have h₁ := reaching_ge wf.canonical hx
      have h₂ := (wf.within x (List.dropWhile_subset _ hx)).2
      omega
    have honly : ∀ x ∈ reaching range.2 seqs, x = r := by
      intro x hx
      have h₁ := hends x hx
      have h₂ := hcr.nonempty x hx
      rcases hcr.clear hmem hx with heq | hlt | hlt
      · exact heq
      · omega
      · omega
    cases hcase : reaching range.2 seqs with
    | nil => simp [hcase] at hmem
    | cons x rest =>
      rw [hcase] at honly hcr
      obtain rfl := honly x (by simp)
      cases rest with
      | nil => rfl
      | cons y rest =>
        obtain rfl := honly y (by simp)
        have := hcr.head_lt (x := y) (by simp)
        omega
  have hnew : startsBy (reaching range.2 seqs) range.1 = false := by
    rw [hreach]
    simp [startsBy, hrlow]
  have habove : (mergeAbove range (reaching range.2 seqs)).2 = [r] := by
    rw [hreach]
    simp [mergeAbove, hmax, next_maxValue, show ¬ r.1 ≤ 1 by omega]
  have hbelow : reaching (previousKey range.1) seqs =
      below range.2 (reaching (previousKey range.1) seqs) ++ [r] := by
    rw [← hreach, ← reaching_reaching hkey, below_append_reaching]
  refine ⟨?_, r, hr, by omega, hrmax.ge⟩
  cases hparts : below range.2 (reaching (previousKey range.1) seqs) with
  | nil =>
    rw [hparts] at hbelow
    rw [gapsOf_above hasc hnew habove hbelow (by simp)] at hgaps
    cases hgaps
  | cons b ms =>
    have hlow : ∀ x ∈ b :: ms, x.2 < range.2 := fun x hx => below_lt (hparts ▸ hx)
    have hcb : Canonical (b :: ms) := by
      rw [← hparts]
      exact canonical_below (canonical_reaching wf.canonical)
    obtain ⟨hne, hlt, hcm⟩ := canonical_cons.mp hcb
    rw [hparts] at hbelow
    have hfirst := reaching_head (show reaching _ seqs = b :: (ms ++ [r]) from hbelow)
    rw [gapsOf_replaced hasc hnew habove hbelow, Except.ok.injEq] at hgaps
    rw [← hgaps, covers_append]
    right
    have hstart : ∀ m ∈ ms, m.1 ≤ range.2 + 1 := by
      intro m hm
      have h₁ := hlow m (by simp [hm])
      have h₂ := hcm.nonempty m hm
      omega
    have hblow := hlow b (by simp)
    refine ((gapLoop_spec hmax.le b.2 (by omega) hcm hlt hstart).2.2 maxValue).mpr ⟨by omega, ?_⟩
    rintro ⟨m, hm, -, hle⟩
    have := hlow m (by simp [hm])
    omega

/-- The two-argument `insert` reports exactly what was missing, if and only if its range is
in the set already or the stored ranges are as the list of gaps expects them. -/
theorem added_reported_iff (wf : WellFormed seqs) (hpos : 0 ≤ range.1) (hasc : range.1 ≤ range.2)
    (hmax : range.2 ≤ maxValue) :
    (∃ grew after gaps, insertGaps seqs range = .ok (grew, after, gaps) ∧
        Reports seqs range grew gaps) ↔
      (∀ n, range.1 ≤ n → n ≤ range.2 → Covers seqs n) ∨ Expected seqs range := by
  rw [← startsBy_iff wf hasc]
  cases hnew : startsBy (reaching range.2 seqs) range.1 with
  | true =>
    simp only [true_or, iff_true]
    refine ⟨false, seqs, [], insertGaps_contained hasc hnew, by simp, List.Pairwise.nil, ?_, by simp⟩
    intro n
    have hall := (startsBy_iff wf hasc).mp hnew n
    simp only [covers_nil, false_iff, not_and, not_not]
    exact fun h => hall h.1 h.2
  | false =>
    simp only [Bool.false_eq_true, false_or]
    have hmissing : ∃ n, (range.1 ≤ n ∧ n ≤ range.2) ∧ ¬ Covers seqs n := by
      by_contra hno
      have hall : startsBy (reaching range.2 seqs) range.1 = true := by
        refine (startsBy_iff wf hasc).mpr fun n hlo hhi => ?_
        by_contra hn
        exact hno ⟨n, ⟨hlo, hhi⟩, hn⟩
      simp [hnew] at hall
    constructor
    · rintro ⟨grew, after, gaps, heq, hrep⟩
      obtain ⟨hgaps, -⟩ := insertGaps_eq_ok.mp heq
      have hclash : ¬ Clash seqs range := by
        intro hclash
        obtain ⟨hin, hold⟩ := clash_reported wf hpos hasc hclash hgaps
        exact ((hrep.union _).mp hin).2 hold
      refine ⟨?_, hclash⟩
      obtain ⟨replaced, hbelow, hstart, hclear⟩ := replaced_split wf hpos hasc hmax hnew hclash
      cases replaced with
      | nil =>
        by_cases hne : (mergeAbove range (reaching range.2 seqs)).2 = []
        · rw [gapsOf_none hasc hnew (hbelow.trans hne)] at hgaps
          cases hgaps
          obtain ⟨n, hn⟩ := hmissing
          exact absurd ((hrep.union n).mpr hn) (covers_nil n)
        · rw [gapsOf_above hasc hnew rfl hbelow hne] at hgaps
          cases hgaps
      | cons b ms =>
        rw [gapsOf_replaced hasc hnew rfl hbelow, Except.ok.injEq] at hgaps
        have hfrom := firstFrom_of_reaching wf hpos hbelow
        refine ⟨b, hfrom, hstart b (by simp), ?_⟩
        by_contra hb
        rw [not_or, not_le] at hb
        obtain ⟨n, hin, hold⟩ := covers_reported ms hb.1 (wf.canonical.nonempty b hfrom.1) hb.2
        rw [hgaps] at hin
        exact ((hrep.union n).mp hin).2 ⟨b, hfrom.1, hold⟩
    · rintro ⟨⟨b, hfrom, hbstart, hb⟩, hclash⟩
      obtain ⟨replaced, hbelow, hstart, hclear⟩ := replaced_split wf hpos hasc hmax hnew hclash
      obtain ⟨grew, after, hins, -⟩ := insertI_spec range wf hpos hasc hmax hclash
      have hgrew := insertI_grew range wf hasc hins
      cases replaced with
      | nil =>
        -- The first range behind the search is the range above: it starts too high.
        cases habove : (mergeAbove range (reaching range.2 seqs)).2 with
        | nil =>
          exact absurd hfrom (not_firstFrom_of_reaching wf hpos (hbelow.trans habove) b)
        | cons a rest =>
          rw [habove] at hbelow hclear
          obtain rfl := FirstFrom.unique wf.canonical (firstFrom_of_reaching wf hpos hbelow) hfrom
          have := hclear b (by simp)
          omega
      | cons b' ms =>
        obtain rfl := FirstFrom.unique wf.canonical (firstFrom_of_reaching wf hpos hbelow) hfrom
        refine ⟨grew, after, _, insertGaps_eq_ok.mpr ⟨gapsOf_replaced hasc hnew rfl hbelow, hins⟩, ?_⟩
        exact reports_of_expected wf hpos hasc hmax hbelow hstart hclear hb hgrew rfl

/-- 1 and 5 are stored when 1 to 7 is inserted: 2 to 4 and 6 to 7 are new. -/
theorem added_reported_iff_single :
    Expected [(1, 1), (5, 5)] (1, 7) ∧ ∃ grew after gaps,
      insertGaps [(1, 1), (5, 5)] (1, 7) = .ok (grew, after, gaps) ∧
        Reports [(1, 1), (5, 5)] (1, 7) grew gaps := by
  have wf : WellFormed [(1, 1), (5, 5)] := ⟨⟨by decide, by decide⟩, by unfold Within; decide⟩
  have hexp : Expected [(1, 1), (5, 5)] (1, 7) := by
    refine ⟨⟨(1, 1), by unfold FirstFrom; decide, by decide, by decide⟩, ?_⟩
    rintro ⟨hend, -⟩
    exact absurd hend (by decide)
  exact ⟨hexp, (added_reported_iff wf (by decide) (by decide) (by decide)).mpr (.inr hexp)⟩

/-- With 1 to 3 stored, inserting 1 to 5 reports the received numbers 1 and 2 as added. -/
theorem received_reported_added :
    ¬ ∀ (seqs : List Range) (range : Range), WellFormed seqs → 0 ≤ range.1 → range.1 ≤ range.2 →
      range.2 ≤ maxValue → ∃ grew after gaps, insertGaps seqs range = .ok (grew, after, gaps) ∧
        Reports seqs range grew gaps := by
  intro h
  have wf : WellFormed [(1, 3)] := ⟨⟨by decide, by decide⟩, by unfold Within; decide⟩
  obtain ⟨grew, after, gaps, heq, hrep⟩ := h [(1, 3)] (1, 5) wf (by decide) (by decide) (by decide)
  cases heq
  have hone : Covers [(1, 2), (4, 5)] 1 := ⟨(1, 2), by decide, by decide, by decide⟩
  exact ((hrep.union 1).mp hone).2 ⟨(1, 3), by decide, by decide, by decide⟩

end OpenDDS.Guarantees.AddedRanges
