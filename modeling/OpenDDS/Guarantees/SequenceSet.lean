import OpenDDS.Library.Run
import OpenDDS.Source.DisjointSequence

/-!
# A set of sequence numbers and its ranges

A `DisjointSequence` that is only filled through `insert` of a number or a range, and
emptied by `reset`, stands for the union of what was inserted since the last `reset`. Its
ranges are the maximal runs of that set, so each query can be stated on the set alone.
-/
namespace OpenDDS.Guarantees.SequenceSet
open Library Library.RangeList Source Source.SequenceNumber Source.DisjointSequence

inductive Operation where
  | insert (value : Int)
  | insertRange (range : Range)
  | reset

def Operation.range : Operation → Option Range
  | .insert value => some (value, value)
  | .insertRange range => some range
  | .reset => none

/-- The result of an operation, where it has one, and the set it leaves. -/
def step (seqs : List Range) : Operation → Except Fault (Option Bool × List Range)
  | .insert value => (DisjointSequence.insert seqs value).map (Prod.map some id)
  | .insertRange range => (insertI seqs range).map (Prod.map some id)
  | .reset => .ok (none, DisjointSequence.reset)

def InDomain (op : Operation) : Prop :=
  ∀ r ∈ op.range, zero ≤ r.1 ∧ r.1 ≤ r.2 ∧ r.2 < maxValue

def Performs (seqs : List Range) (op : Operation) (after : List Range) : Prop :=
  InDomain op ∧ ∃ result, step seqs op = .ok (result, after)

/-- The ranges inserted since the last `reset`. -/
def inserted (ops : List Operation) : List Range :=
  ops.foldl (fun ranges op => match op.range with
    | some range => range :: ranges
    | none => []) []

/-- The representation is the canonical one of the set `S`, and the queries answer on `S`. -/
structure Represents (seqs : List Range) (S : Int → Prop) : Prop where
  canonical : Canonical seqs
  denotes : ∀ n, Covers seqs n ↔ S n
  contains : ∀ n, contains seqs n = true ↔ S n
  empty : DisjointSequence.empty seqs = true ↔ ∀ n, ¬ S n
  low : (∃ n, S n) → IsLeast S (low seqs)
  high : (∃ n, S n) → IsGreatest S (high seqs)
  cumulativeAck : (∃ n, S n) → MaximalRun S (DisjointSequence.low seqs, cumulativeAck seqs)
  lastAck : (∃ n, S n) → MaximalRun S (lastAck seqs, DisjointSequence.high seqs)
  unknown : (∀ n, ¬ S n) →
    DisjointSequence.cumulativeAck seqs = unknown ∧ DisjointSequence.lastAck seqs = unknown
  missing : ∀ r, r ∈ missingSequenceRanges seqs ↔ MaximalGap S r
  ascending : (missingSequenceRanges seqs).Pairwise fun a b => a.2 < b.1

variable {seqs : List Range} {S : Int → Prop}

theorem missingSequenceRanges_eq_gaps (wf : WellFormed seqs) :
    missingSequenceRanges seqs = gaps seqs := by
  induction seqs with
  | nil => rfl
  | cons a rest ih =>
    cases rest with
    | nil => rfl
    | cons b rest =>
      have hsep : a.2 + 1 < b.1 := wf.canonical.head_lt (by simp)
      have hane := wf.canonical.nonempty a (by simp)
      have hbne := wf.canonical.nonempty b (by simp)
      have hlow := (wf.within a (by simp)).1
      have hhigh := (wf.within b (by simp)).2
      have hnext : next a.2 = a.2 + 1 := next_of_lt (by omega)
      have hprevious : previous b.1 = b.1 - 1 := previous_of_ne (by omega)
      have hrest : WellFormed (b :: rest) :=
        ⟨(canonical_cons.mp wf.canonical).2.2, (within_cons.mp wf.within).2⟩
      rw [missingSequenceRanges, gaps, hnext, hprevious, ih hrest]
      rw [if_pos (by omega)]

theorem represents (wf : WellFormed seqs) (hS : ∀ n, Covers seqs n ↔ S n) : Represents seqs S := by
  obtain rfl : Covers seqs = S := funext fun n => propext (hS n)
  have hne : (∃ n, Covers seqs n) → seqs ≠ [] := fun ⟨n, hn⟩ => ne_nil_of_covers hn
  have hnil : (∀ n, ¬ Covers seqs n) → seqs = [] := by
    intro hnone
    by_contra h
    exact hnone _ (covers_low wf.canonical h)
  have hhead : ∀ h : seqs ≠ [], seqs.head h = (low seqs, cumulativeAck seqs) := by
    intro h
    cases seqs with
    | nil => exact absurd rfl h
    | cons a rest => rfl
  have hlast : ∀ h : seqs ≠ [], seqs.getLast h = (lastAck seqs, high seqs) := by
    intro h
    simp [lastAck, high, List.getLast?_eq_some_getLast h]
  constructor
  · exact wf.canonical
  · exact fun _ => Iff.rfl
  · exact contains_iff wf.canonical
  · constructor
    · intro hempty n hn
      exact ne_nil_of_covers hn (by simpa [DisjointSequence.empty] using hempty)
    · intro hnone
      rw [hnil hnone]
      rfl
  · intro hsome
    exact ⟨covers_low wf.canonical (hne hsome), fun n hn => low_le wf.canonical hn⟩
  · intro hsome
    exact ⟨covers_high wf.canonical (hne hsome), fun n hn => le_high wf.canonical hn⟩
  · intro hsome
    rw [← hhead (hne hsome)]
    exact wf.canonical.maximalRun (List.head_mem _)
  · intro hsome
    rw [← hlast (hne hsome)]
    exact wf.canonical.maximalRun (List.getLast_mem _)
  · intro hnone
    rw [hnil hnone]
    exact ⟨rfl, rfl⟩
  · intro r
    rw [missingSequenceRanges_eq_gaps wf]
    exact mem_gaps wf.canonical
  · rw [missingSequenceRanges_eq_gaps wf]
    exact (gaps_ascending wf.canonical).imp fun h => by omega

theorem insertI_represents {range : Range} (wf : WellFormed seqs)
    (hdom : zero ≤ range.1 ∧ range.1 ≤ range.2 ∧ range.2 < maxValue) :
    ∃ grew after, insertI seqs range = .ok (grew, after) ∧ WellFormed after ∧
      (∀ n, Covers after n ↔ Covers seqs n ∨ (range.1 ≤ n ∧ n ≤ range.2)) ∧
      (grew = true ↔ ∃ n, Covers after n ∧ ¬ Covers seqs n) := by
  obtain ⟨hpos, hasc, hmax⟩ := hdom
  have hclash : ¬ Clash seqs range := fun h => absurd h.1 (by omega)
  obtain ⟨grew, after, heq, hwf, hcov⟩ :=
    insertI_spec range wf hpos hasc hmax.le hclash
  refine ⟨grew, after, heq, hwf, hcov, ?_⟩
  rw [insertI_grew range wf hasc heq]
  constructor
  · rintro ⟨n, hn, hmissing⟩
    exact ⟨n, (hcov n).mpr (.inr hn), hmissing⟩
  · rintro ⟨n, hn, hmissing⟩
    rcases (hcov n).mp hn with hold | hnew
    · exact absurd hold hmissing
    · exact ⟨n, hnew, hmissing⟩

theorem step_insert {op : Operation} {range : Range} (h : op.range = some range) :
    step seqs op = (insertI seqs range).map (Prod.map some id) := by
  cases op with
  | insert value =>
    cases h
    rfl
  | insertRange r =>
    cases h
    rfl
  | reset => cases h

theorem inserted_concat (ops : List Operation) (op : Operation) :
    inserted (ops ++ [op]) =
      match op.range with
      | some range => range :: inserted ops
      | none => [] := by
  rw [inserted, List.foldl_concat]
  rfl

theorem step_spec {op : Operation} {ops : List Operation} (wf : WellFormed seqs)
    (hset : ∀ n, Covers seqs n ↔ Covers (inserted ops) n) (hdom : InDomain op) :
    ∃ result after, step seqs op = .ok (result, after) ∧ WellFormed after ∧
      (∀ n, Covers after n ↔ Covers (inserted (ops ++ [op])) n) ∧
      ∀ grew, result = some grew → (grew = true ↔ ∃ n, Covers after n ∧ ¬ Covers seqs n) := by
  cases hrange : op.range with
  | some range =>
    obtain ⟨grew, after, heq, hwf, hcov, hgrew⟩ := insertI_represents wf (hdom range hrange)
    refine ⟨some grew, after, by rw [step_insert hrange, heq]; rfl, hwf, ?_, ?_⟩
    · intro n
      rw [inserted_concat, hrange, covers_cons, hcov, hset]
      exact or_comm
    · rintro _ ⟨⟩
      exact hgrew
  | none =>
    obtain rfl : op = .reset := by
      cases op with
      | reset => rfl
      | insert value => cases hrange
      | insertRange range => cases hrange
    refine ⟨none, [], rfl, wellFormed_nil, ?_, by simp⟩
    intro n
    rw [inserted_concat, hrange]

/-- After every sequence of operations the representation is the canonical one of the
union of the ranges inserted since the last `reset`, and a further insertion succeeds and
returns whether the set grows. -/
theorem faithful_sequence_set {ops : List Operation} (run : Run [] Performs ops seqs) :
    Represents seqs (Covers (inserted ops)) ∧
      ∀ op, InDomain op → ∃ result after, step seqs op = .ok (result, after) ∧
        ∀ grew, result = some grew → (grew = true ↔ ∃ n, Covers after n ∧ ¬ Covers seqs n) := by
  have hinv : WellFormed seqs ∧ ∀ n, Covers seqs n ↔ Covers (inserted ops) n := by
    apply run.history fun ops seqs => WellFormed seqs ∧ ∀ n, Covers seqs n ↔ Covers (inserted ops) n
    · exact ⟨wellFormed_nil, fun _ => Iff.rfl⟩
    · rintro ops seqs op after ⟨wf, hset⟩ ⟨hdom, result, heq⟩
      obtain ⟨result', after', heq', hwf, hset', -⟩ := step_spec wf hset hdom
      rw [heq, Except.ok.injEq, Prod.mk.injEq] at heq'
      rw [heq'.2]
      exact ⟨hwf, hset'⟩
  obtain ⟨wf, hset⟩ := hinv
  refine ⟨represents wf hset, ?_⟩
  intro op hdom
  obtain ⟨result, after, heq, -, -, hgrew⟩ := step_spec wf hset hdom
  exact ⟨result, after, heq, hgrew⟩

/-- 1, 2, 5 and 9 are in the set when 4 to 12 is inserted. -/
theorem faithful_sequence_set_merged :
    Run [] Performs [.insertRange (1, 2), .insert 9, .insert 5, .insertRange (4, 12)]
        [(1, 2), (4, 12)] ∧
      missingSequenceRanges [(1, 2), (4, 12)] = [(3, 3)] ∧
      MaximalGap (Covers (inserted
        [.insertRange (1, 2), .insert 9, .insert 5, .insertRange (4, 12)])) (3, 3) := by
  have hdom : ∀ r : Range, zero ≤ r.1 ∧ r.1 ≤ r.2 ∧ r.2 < maxValue → InDomain (.insertRange r) := by
    rintro r h _ ⟨⟩
    exact h
  have hvalue : ∀ v : Int, zero ≤ v ∧ v < maxValue → InDomain (.insert v) := by
    rintro v ⟨h₁, h₂⟩ _ ⟨⟩
    exact ⟨h₁, le_rfl, h₂⟩
  have h₁ : Performs [] (.insertRange (1, 2)) [(1, 2)] := ⟨hdom _ (by decide), some true, rfl⟩
  have h₂ : Performs [(1, 2)] (.insert 9) [(1, 2), (9, 9)] := ⟨hvalue _ (by decide), some true, rfl⟩
  have h₃ : Performs [(1, 2), (9, 9)] (.insert 5) [(1, 2), (5, 5), (9, 9)] :=
    ⟨hvalue _ (by decide), some true, rfl⟩
  have h₄ : Performs [(1, 2), (5, 5), (9, 9)] (.insertRange (4, 12)) [(1, 2), (4, 12)] :=
    ⟨hdom _ (by decide), some true, rfl⟩
  have run := (((Run.start.next h₁).next h₂).next h₃).next h₄
  exact ⟨run, rfl, ((faithful_sequence_set run).1.missing (3, 3)).mp (by decide)⟩

end OpenDDS.Guarantees.SequenceSet
