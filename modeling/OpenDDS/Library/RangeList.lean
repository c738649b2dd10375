import Mathlib.Data.List.Pairwise
import Mathlib.Data.List.TakeWhile
import Mathlib.Tactic.Linarith

/-!
# Ordered lists of closed integer ranges

A set of integers stored as its maximal runs: `Canonical` lists hold non-empty
ranges in ascending order with at least one absent number between neighbours.
`Covers` is the set a list denotes. The lemmas describe what cutting a list at a
lower bound and replacing a middle part by one merged range does to both. The ranges of
a canonical list are the maximal runs of its set, and what lies between neighbours are
the maximal gaps.
-/
namespace OpenDDS.Library.RangeList

/-- A closed range, first and last member. -/
abbrev Range := Int × Int

/-- `n` is a member of some range of the list. -/
def Covers (rs : List Range) (n : Int) : Prop := ∃ r ∈ rs, r.1 ≤ n ∧ n ≤ r.2

/-- Non-empty ranges, ascending, never overlapping and never adjacent. -/
structure Canonical (rs : List Range) : Prop where
  nonempty : ∀ r ∈ rs, r.1 ≤ r.2
  separated : rs.Pairwise fun a b => a.2 + 1 < b.1

/-- Members of the list lie between the two bounds. -/
def Within (lo hi : Int) (rs : List Range) : Prop := ∀ r ∈ rs, lo ≤ r.1 ∧ r.2 ≤ hi

@[simp] theorem covers_nil (n : Int) : ¬ Covers [] n := by simp [Covers]

@[simp] theorem covers_cons (r : Range) (rs : List Range) (n : Int) :
    Covers (r :: rs) n ↔ (r.1 ≤ n ∧ n ≤ r.2) ∨ Covers rs n := by
  simp [Covers]

@[simp] theorem covers_append (as bs : List Range) (n : Int) :
    Covers (as ++ bs) n ↔ Covers as n ∨ Covers bs n := by
  simp only [Covers, List.mem_append]
  constructor
  · rintro ⟨r, hr | hr, hn⟩
    · exact .inl ⟨r, hr, hn⟩
    · exact .inr ⟨r, hr, hn⟩
  · rintro (⟨r, hr, hn⟩ | ⟨r, hr, hn⟩)
    · exact ⟨r, .inl hr, hn⟩
    · exact ⟨r, .inr hr, hn⟩

theorem canonical_nil : Canonical [] := ⟨by simp, List.Pairwise.nil⟩

theorem canonical_cons {r : Range} {rs : List Range} :
    Canonical (r :: rs) ↔ r.1 ≤ r.2 ∧ (∀ x ∈ rs, r.2 + 1 < x.1) ∧ Canonical rs := by
  constructor
  · intro h
    have hs := List.pairwise_cons.mp h.separated
    exact ⟨h.nonempty r (by simp), hs.1, fun x hx => h.nonempty x (by simp [hx]), hs.2⟩
  · rintro ⟨hr, hx, hc⟩
    refine ⟨?_, List.pairwise_cons.mpr ⟨hx, hc.separated⟩⟩
    intro x hmem
    rcases List.mem_cons.mp hmem with rfl | hmem
    · exact hr
    · exact hc.nonempty x hmem

variable {as bs : List Range}

theorem canonical_append : Canonical (as ++ bs) ↔
      Canonical as ∧ Canonical bs ∧ ∀ a ∈ as, ∀ b ∈ bs, a.2 + 1 < b.1 := by
  constructor
  · intro h
    obtain ⟨ha, hb, hab⟩ := List.pairwise_append.mp h.separated
    exact ⟨⟨fun x hx => h.nonempty x (by simp [hx]), ha⟩,
      ⟨fun x hx => h.nonempty x (by simp [hx]), hb⟩, hab⟩
  · rintro ⟨ha, hb, hab⟩
    refine ⟨?_, List.pairwise_append.mpr ⟨ha.separated, hb.separated, hab⟩⟩
    intro x hx
    rcases List.mem_append.mp hx with hx | hx
    · exact ha.nonempty x hx
    · exact hb.nonempty x hx

/-- In a canonical list the ranges after the head start above its end. -/
theorem Canonical.head_lt {r x : Range} {rs : List Range} (h : Canonical (r :: rs))
    (hx : x ∈ rs) : r.2 + 1 < x.1 :=
  (canonical_cons.mp h).2.1 x hx

/-- The ranges that end below `v`, in front of the list. -/
def below (v : Int) (rs : List Range) : List Range := rs.takeWhile fun r => r.2 < v

/-- The rest of the list, from the first range that ends at `v` or later. -/
def reaching (v : Int) (rs : List Range) : List Range := rs.dropWhile fun r => r.2 < v

theorem below_append_reaching (v : Int) (rs : List Range) : below v rs ++ reaching v rs = rs :=
  List.takeWhile_append_dropWhile

variable {v : Int}

theorem below_lt {rs : List Range} {r : Range} (h : r ∈ below v rs) : r.2 < v := by
  simpa using List.mem_takeWhile_imp h

theorem reaching_head {rs rest : List Range} {r : Range} (h : reaching v rs = r :: rest) :
    v ≤ r.2 := by
  have := List.head?_dropWhile_not (fun r : Range => r.2 < v) rs
  unfold reaching at h
  rw [h] at this
  simpa using this

/-- Ends of a canonical list ascend, so cutting at a lower bound cuts everywhere. -/
theorem reaching_ge {rs : List Range} (hc : Canonical rs) {r : Range} (h : r ∈ reaching v rs) :
    v ≤ r.2 := by
  cases hf : reaching v rs with
  | nil => simp [hf] at h
  | cons x rest =>
    have hx := reaching_head hf
    have hcx : Canonical (x :: rest) := by
      have hall : Canonical (below v rs ++ reaching v rs) := by rwa [below_append_reaching]
      rw [hf] at hall
      exact (canonical_append.mp hall).2.1
    rw [hf] at h
    rcases List.mem_cons.mp h with rfl | hmem
    · exact hx
    · have hlt := hcx.head_lt hmem
      have hne := hcx.nonempty r (by simp [hmem])
      omega

theorem canonical_reaching {rs : List Range} (hc : Canonical rs) : Canonical (reaching v rs) := by
  have hall : Canonical (below v rs ++ reaching v rs) := by rwa [below_append_reaching]
  exact (canonical_append.mp hall).2.1

theorem canonical_below {rs : List Range} (hc : Canonical rs) : Canonical (below v rs) := by
  have hall : Canonical (below v rs ++ reaching v rs) := by rwa [below_append_reaching]
  exact (canonical_append.mp hall).1

/-- Lists cut at `v` are found again by cutting any list assembled that way. -/
theorem below_append_of_lt (ha : ∀ r ∈ as, r.2 < v) : below v (as ++ bs) = as ++ below v bs := by
  unfold below
  rw [List.takeWhile_append_of_pos]
  intro r hr
  simpa using ha r hr

theorem reaching_append_of_lt {as : List Range} (ha : ∀ r ∈ as, r.2 < v) (bs : List Range) :
    reaching v (as ++ bs) = reaching v bs := by
  unfold reaching
  rw [List.dropWhile_append_of_pos]
  intro r hr
  simpa using ha r hr

theorem reaching_reaching {k v : Int} (h : k ≤ v) (rs : List Range) :
    reaching v (reaching k rs) = reaching v rs := by
  have hlt : ∀ r ∈ below k rs, r.2 < v := fun r hr => lt_of_lt_of_le (below_lt hr) h
  have hsplit := reaching_append_of_lt hlt (reaching k rs)
  rw [below_append_reaching] at hsplit
  exact hsplit.symm

theorem reaching_cons_of_ge {r : Range} {rs : List Range} (h : v ≤ r.2) :
    reaching v (r :: rs) = r :: rs := by
  simp [reaching, h]

theorem below_cons_of_ge {r : Range} {rs : List Range} (h : v ≤ r.2) : below v (r :: rs) = [] := by
  simp [below, h]

/-- Insertion into a set of ranges ordered by their last members: a range that ends
where a stored one ends is not inserted. -/
def insertByEnd (r : Range) : List Range → List Range
  | [] => [r]
  | x :: xs =>
    if x.2 < r.2 then x :: insertByEnd r xs else if x.2 = r.2 then x :: xs else r :: x :: xs

attribute [grind =] insertByEnd

theorem insertByEnd_between {r : Range} (ha : ∀ a ∈ as, a.2 < r.2) (hb : ∀ b ∈ bs, r.2 < b.2) :
    insertByEnd r (as ++ bs) = as ++ r :: bs := by
  induction as with
  | nil =>
    cases bs with
    | nil => rfl
    | cons b bs =>
      have h := hb b (by simp)
      simp [insertByEnd, show ¬ b.2 < r.2 by omega, show ¬ b.2 = r.2 by omega]
  | cons a as ih =>
    have h := ha a (by simp)
    simp only [List.cons_append, insertByEnd, h, if_true]
    rw [ih fun x hx => ha x (by simp [hx])]

theorem insertByEnd_present {r b : Range} (ha : ∀ a ∈ as, a.2 < r.2) (hb : b.2 = r.2) :
    insertByEnd r (as ++ b :: bs) = as ++ b :: bs := by
  induction as with
  | nil => simp [insertByEnd, hb]
  | cons a as ih =>
    have h := ha a (by simp)
    simp only [List.cons_append, insertByEnd, h, if_true]
    rw [ih fun x hx => ha x (by simp [hx])]

theorem mem_insertByEnd {r x : Range} {seqs : List Range} (h : x ∈ seqs) : x ∈ insertByEnd r seqs := by
  induction seqs with
  | nil => cases h
  | cons y ys ih =>
    unfold insertByEnd
    split
    · rcases List.mem_cons.mp h with rfl | h
      · simp
      · simp [ih h]
    · split
      · exact h
      · simp [h]

theorem insertByEnd_mem {r x : Range} {seqs : List Range} (h : x ∈ insertByEnd r seqs) :
    x = r ∨ x ∈ seqs := by
  induction seqs with
  | nil => simpa [insertByEnd] using h
  | cons y ys ih =>
    unfold insertByEnd at h
    split at h
    · rcases List.mem_cons.mp h with rfl | h
      · simp
      · exact (ih h).imp_right fun h => by simp [h]
    · split at h
      · exact .inr h
      · rcases List.mem_cons.mp h with rfl | h
        · exact .inl rfl
        · exact .inr h

/-- A range is stored after its insertion, or another one that ends where it ends. -/
theorem insertByEnd_ends (r : Range) (seqs : List Range) :
    r ∈ insertByEnd r seqs ∨ ∃ x ∈ seqs, x.2 = r.2 := by
  induction seqs with
  | nil => simp [insertByEnd]
  | cons y ys ih =>
    unfold insertByEnd
    split
    · rcases ih with h | ⟨x, hx, heq⟩
      · simp [h]
      · exact .inr ⟨x, by simp [hx], heq⟩
    · split
      · rename_i heq
        exact .inr ⟨y, by simp, heq⟩
      · simp

/-- One range put between two canonical lists, clear of both. -/
theorem canonical_between {r : Range} (ha : Canonical as) (hb : Canonical bs) (hr : r.1 ≤ r.2)
    (hlo : ∀ a ∈ as, a.2 + 1 < r.1) (hhi : ∀ b ∈ bs, r.2 + 1 < b.1) :
    Canonical (as ++ r :: bs) := by
  refine canonical_append.mpr ⟨ha, canonical_cons.mpr ⟨hr, hhi, hb⟩, ?_⟩
  intro a hmem b hb'
  rcases List.mem_cons.mp hb' with rfl | hb'
  · exact hlo a hmem
  · have h₁ := hlo a hmem
    have h₂ := hhi b hb'
    omega

/-- Replacing a middle part by one range that covers it and nothing but it and `range`. -/
theorem covers_splice {as ms bs : List Range} {r range : Range}
    (hin : ∀ m ∈ ms, r.1 ≤ m.1 ∧ m.2 ≤ r.2) (hrange : r.1 ≤ range.1 ∧ range.2 ≤ r.2)
    (hout : ∀ n, r.1 ≤ n → n ≤ r.2 → Covers ms n ∨ (range.1 ≤ n ∧ n ≤ range.2)) (n : Int) :
    Covers (as ++ r :: bs) n ↔ Covers (as ++ (ms ++ bs)) n ∨ (range.1 ≤ n ∧ n ≤ range.2) := by
  simp only [covers_append, covers_cons]
  constructor
  · rintro (h | ⟨h₁, h₂⟩ | h)
    · exact .inl (.inl h)
    · rcases hout n h₁ h₂ with h | h
      · exact .inl (.inr (.inl h))
      · exact .inr h
    · exact .inl (.inr (.inr h))
  · rintro ((h | ⟨m, hm, h₁, h₂⟩ | h) | ⟨h₁, h₂⟩)
    · exact .inl h
    · have := hin m hm
      exact .inr (.inl ⟨by omega, by omega⟩)
    · exact .inr (.inr h)
    · exact .inr (.inl ⟨by omega, by omega⟩)

theorem within_append {lo hi : Int} :
    Within lo hi (as ++ bs) ↔ Within lo hi as ∧ Within lo hi bs := by
  simp only [Within, List.mem_append]
  constructor
  · intro h
    exact ⟨fun r hr => h r (.inl hr), fun r hr => h r (.inr hr)⟩
  · rintro ⟨ha, hb⟩ r (hr | hr)
    · exact ha r hr
    · exact hb r hr

theorem within_cons {lo hi : Int} {r : Range} {rs : List Range} :
    Within lo hi (r :: rs) ↔ (lo ≤ r.1 ∧ r.2 ≤ hi) ∧ Within lo hi rs := by
  simp [Within]

section

/-- A run of members that extends on neither side. -/
structure MaximalRun (S : Int → Prop) (r : Range) : Prop where
  nonempty : r.1 ≤ r.2
  members : ∀ n, r.1 ≤ n → n ≤ r.2 → S n
  before : ¬ S (r.1 - 1)
  after : ¬ S (r.2 + 1)

/-- A run of absent numbers between two members. -/
structure MaximalGap (S : Int → Prop) (r : Range) : Prop where
  nonempty : r.1 ≤ r.2
  absent : ∀ n, r.1 ≤ n → n ≤ r.2 → ¬ S n
  before : S (r.1 - 1)
  after : S (r.2 + 1)

def gaps : List Range → List Range
  | a :: b :: rest => (a.2 + 1, b.1 - 1) :: gaps (b :: rest)
  | _ => []

attribute [grind =] gaps

variable {rs : List Range} {r : Range}

theorem Canonical.head_le {n : Int} (hc : Canonical (r :: rs)) (h : Covers (r :: rs) n) :
    r.1 ≤ n := by
  obtain ⟨x, hx, hlo, -⟩ := h
  rcases List.mem_cons.mp hx with rfl | hx
  · exact hlo
  · have h₁ := hc.head_lt hx
    have h₂ := hc.nonempty r (by simp)
    omega

/-- Of two ranges of a canonical list, one lies clear above the other. -/
theorem Canonical.clear {x : Range} (hc : Canonical rs) (hr : r ∈ rs) (hx : x ∈ rs) :
    x = r ∨ x.2 + 1 < r.1 ∨ r.2 + 1 < x.1 := by
  induction rs with
  | nil => cases hr
  | cons y ys ih =>
    rcases List.mem_cons.mp hr with rfl | hr'
    · rcases List.mem_cons.mp hx with rfl | hx'
      · exact .inl rfl
      · exact .inr (.inr (hc.head_lt hx'))
    · rcases List.mem_cons.mp hx with rfl | hx'
      · exact .inr (.inl (hc.head_lt hr'))
      · exact ih (canonical_cons.mp hc).2.2 hr' hx'

theorem Canonical.maximalRun (hc : Canonical rs) (hr : r ∈ rs) : MaximalRun (Covers rs) r where
  nonempty := hc.nonempty r hr
  members n hlo hhi := ⟨r, hr, hlo, hhi⟩
  before := by
    rintro ⟨x, hx, hlo, hhi⟩
    have hrne := hc.nonempty r hr
    rcases hc.clear hr hx with rfl | h | h <;> omega
  after := by
    rintro ⟨x, hx, hlo, hhi⟩
    have hrne := hc.nonempty r hr
    rcases hc.clear hr hx with rfl | h | h <;> omega

theorem maximalGap_cons {a b : Range} (hc : Canonical (a :: b :: rs)) :
    MaximalGap (Covers (a :: b :: rs)) r ↔
      r = (a.2 + 1, b.1 - 1) ∨ MaximalGap (Covers (b :: rs)) r := by
  have hsep : a.2 + 1 < b.1 := hc.head_lt (by simp)
  have hane := hc.nonempty a (by simp)
  have hbne := hc.nonempty b (by simp)
  have hlow : ∀ n, Covers (b :: rs) n → b.1 ≤ n := fun n hn => (canonical_cons.mp hc).2.2.head_le hn
  have hcons : ∀ n, Covers (a :: b :: rs) n ↔ (a.1 ≤ n ∧ n ≤ a.2) ∨ Covers (b :: rs) n :=
    fun n => covers_cons a (b :: rs) n
  have hfirst : Covers (b :: rs) b.1 := ⟨b, by simp, le_rfl, hbne⟩
  constructor
  · intro h
    have hrne := h.nonempty
    have hstart : ¬ (a.1 ≤ r.1 ∧ r.1 ≤ a.2) :=
      fun hin => h.absent r.1 le_rfl hrne ((hcons _).mpr (.inl hin))
    rcases (hcons _).mp h.before with hbefore | hbefore
    · -- The gap follows the first range, so it ends in front of the second.
      left
      have hafter : b.1 ≤ r.2 + 1 := by
        rcases (hcons _).mp h.after with hin | hin
        · omega
        · exact hlow _ hin
      have hend : ¬ b.1 ≤ r.2 := by
        intro hle
        exact h.absent b.1 (by omega) hle ((hcons _).mpr (.inr hfirst))
      ext <;> simp only <;> omega
    · right
      have hle := hlow _ hbefore
      constructor
      · exact hrne
      · exact fun n h₁ h₂ hn => h.absent n h₁ h₂ ((hcons _).mpr (.inr hn))
      · exact hbefore
      · rcases (hcons _).mp h.after with hin | hin
        · omega
        · exact hin
  · rintro (rfl | h)
    · constructor
      · omega
      · intro n h₁ h₂ hn
        rcases (hcons _).mp hn with hin | hin
        · omega
        · have := hlow _ hin
          omega
      · exact (hcons _).mpr (.inl ⟨by simp only; omega, by simp only; omega⟩)
      · refine (hcons _).mpr (.inr ?_)
        simpa using hfirst
    · have hle := hlow _ h.before
      constructor
      · exact h.nonempty
      · intro n h₁ h₂ hn
        rcases (hcons _).mp hn with hin | hin
        · omega
        · exact h.absent n h₁ h₂ hin
      · exact (hcons _).mpr (.inr h.before)
      · exact (hcons _).mpr (.inr h.after)

theorem mem_gaps (hc : Canonical rs) : r ∈ gaps rs ↔ MaximalGap (Covers rs) r := by
  induction rs with
  | nil =>
    have hno : ¬ MaximalGap (Covers []) r := fun h => covers_nil _ h.before
    simpa [gaps] using hno
  | cons a rest ih =>
    cases rest with
    | nil =>
      have hno : ¬ MaximalGap (Covers [a]) r := by
        intro h
        have hbefore := h.before
        have hafter := h.after
        have hstart := h.absent r.1 le_rfl h.nonempty
        have hne := h.nonempty
        simp only [covers_cons, covers_nil, or_false] at hbefore hafter hstart
        omega
      simpa [gaps] using hno
    | cons b rest =>
      rw [gaps, List.mem_cons, maximalGap_cons hc, ih (canonical_cons.mp hc).2.2]

theorem gaps_ascending (hc : Canonical rs) : (gaps rs).Pairwise fun a b => a.2 + 1 < b.1 := by
  induction rs with
  | nil => exact List.Pairwise.nil
  | cons a rest ih =>
    cases rest with
    | nil => exact List.Pairwise.nil
    | cons b rest =>
      have hrest := (canonical_cons.mp hc).2.2
      refine List.Pairwise.cons ?_ (ih hrest)
      intro g hg
      have hgap := (mem_gaps hrest).mp hg
      have hle := hrest.head_le hgap.before
      omega

end

end OpenDDS.Library.RangeList
