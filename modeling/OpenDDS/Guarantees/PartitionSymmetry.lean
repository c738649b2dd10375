import OpenDDS.Library.Wildcard
import OpenDDS.Source.QosMatching

/-!
# The default partition

A zero-length sequence of partition names should mean the same as the sequence of one empty name.
`matching_partitions` sees to this for its first argument only: a zero-length second argument does
not meet a wildcard that matches the empty name.
-/
namespace OpenDDS.Guarantees.PartitionSymmetry

open Source.QosMatching

section

variable (wildMatch : List Char → List Char → Bool)

/-- The names a sequence stands for. -/
def withDefault (names : List (List Char)) : List (List Char) :=
  if names.length = 0 then [[]] else names

/-- The order of the two sequences does not matter, nor how the default partition is written. -/
def Uniform (p s : List (List Char)) : Prop :=
  matchingPartitions wildMatch p s = matchingPartitions wildMatch s p ∧
  matchingPartitions wildMatch (withDefault p) s = matchingPartitions wildMatch p s ∧
  matchingPartitions wildMatch p (withDefault s) = matchingPartitions wildMatch p s

/-- The names include the default partition only by a wildcard. -/
def ByWildcard (names : List (List Char)) : Prop :=
  matchesDefault names = false ∧ ∃ name ∈ names, isWildcard name = true ∧ wildMatch [] name = true

/-- Some name of the one matches some name of the other. -/
def SomeMatch (p s : List (List Char)) : Prop :=
  ∃ name ∈ p, ∃ qosName ∈ s, partitionMatches wildMatch qosName name = true

variable {wildMatch} {p s : List (List Char)} {name n : List Char}

theorem partitionMatches_comm :
    partitionMatches wildMatch name n = partitionMatches wildMatch n name := by
  unfold partitionMatches
  cases isWildcard name <;> cases isWildcard n <;> simp [eq_comm]

theorem partitionMatches_self_default : partitionMatches wildMatch [] [] = true := rfl

theorem partitionMatches_default (hname : name ≠ []) :
    partitionMatches wildMatch name [] = true ↔
      isWildcard name = true ∧ wildMatch [] name = true := by
  have hempty : isWildcard [] = false := rfl
  unfold partitionMatches
  cases isWildcard name <;> simp [hempty, hname]

theorem SomeMatch.symm (h : SomeMatch wildMatch p s) : SomeMatch wildMatch s p := by
  obtain ⟨name, hname, qosName, hqosName, hmatch⟩ := h
  exact ⟨qosName, hqosName, name, hname, partitionMatches_comm.trans hmatch⟩

theorem someMatch_iff :
    SomeMatch wildMatch p s ↔ (p.any fun name => matchesName wildMatch s name) = true := by
  simp only [SomeMatch, matchesName, List.any_eq_true]

theorem matchesDefault_iff : matchesDefault s = true ↔ s = [] ∨ [] ∈ s := by
  simp [matchesDefault, List.any_eq_true]

theorem mem_withDefault (h : matchesDefault s = true) : [] ∈ withDefault s := by
  unfold withDefault
  split
  next => exact List.mem_cons_self
  next hlength =>
    rcases matchesDefault_iff.mp h with rfl | hmem
    · exact absurd rfl hlength
    · exact hmem

theorem withDefault_ne_nil : withDefault s ≠ [] := by
  cases s <;> exact List.cons_ne_nil _ _

theorem withDefault_of_not (h : matchesDefault s = false) : withDefault s = s := by
  cases s with
  | nil => cases h
  | cons name names => rfl

theorem someMatch_of_default (hp : matchesDefault p = true) (hs : matchesDefault s = true) :
    SomeMatch wildMatch (withDefault p) (withDefault s) :=
  ⟨[], mem_withDefault hp, [], mem_withDefault hs, partitionMatches_self_default⟩

/-- The first argument is read as the names it stands for, the second only if the first includes
the default partition. -/
theorem matchingPartitions_iff :
    matchingPartitions wildMatch p s = true ↔
      SomeMatch wildMatch (withDefault p) (if matchesDefault p then withDefault s else s) := by
  unfold matchingPartitions
  cases hp : matchesDefault p with
  | false => simp only [Bool.false_and, Bool.false_eq_true, if_false, withDefault_of_not hp, someMatch_iff]
  | true =>
    cases hs : matchesDefault s with
    | true => simpa using someMatch_of_default hp hs
    | false =>
      cases p with
      | nil =>
        rw [if_pos rfl, withDefault_of_not hs, someMatch_iff]
        simp [withDefault]
      | cons name names =>
        rw [if_pos rfl, withDefault_of_not hs, someMatch_iff]
        simp [withDefault]

theorem byWildcard_iff (hp : matchesDefault p = false) :
    ByWildcard wildMatch p ↔ SomeMatch wildMatch p [[]] := by
  simp only [ByWildcard, SomeMatch, hp, true_and, List.mem_singleton, exists_eq_left]
  have hne : ∀ name ∈ p, name ≠ [] := by
    intro name hname hnil
    have hdefault := matchesDefault_iff.mpr (.inr (hnil ▸ hname))
    rw [hp] at hdefault
    cases hdefault
  constructor
  · rintro ⟨name, hname, hmatch⟩
    exact ⟨name, hname, partitionMatches_comm.trans ((partitionMatches_default (hne name hname)).mpr hmatch)⟩
  · rintro ⟨name, hname, hmatch⟩
    exact ⟨name, hname, (partitionMatches_default (hne name hname)).mp (partitionMatches_comm.trans hmatch)⟩

/-- What the names on both sides stand for decides, unless the second argument is the zero-length
sequence and the first includes the default partition only by a wildcard. -/
theorem matchingPartitions_eq_iff (h : ¬ (s = [] ∧ ByWildcard wildMatch p)) :
    matchingPartitions wildMatch p s = true ↔ SomeMatch wildMatch (withDefault p) (withDefault s) := by
  rw [matchingPartitions_iff]
  cases hp : matchesDefault p with
  | true => rw [if_pos rfl]
  | false =>
    cases s with
    | cons name names => rfl
    | nil =>
      have hnone : ¬ SomeMatch wildMatch p [[]] := fun hsome => h ⟨rfl, (byWildcard_iff hp).mpr hsome⟩
      rw [withDefault_of_not hp]
      constructor
      · rintro ⟨_, _, _, hmem, _⟩
        exact absurd hmem List.not_mem_nil
      · exact fun hsome => absurd hsome hnone

theorem not_matching_of_byWildcard (h : ByWildcard wildMatch p) :
    matchingPartitions wildMatch p [] ≠ matchingPartitions wildMatch [] p := by
  have hp : matchesDefault p = false := h.1
  have hsome : SomeMatch wildMatch p [[]] := (byWildcard_iff hp).mp h
  have htrue : matchingPartitions wildMatch [] p = true := by
    rw [matchingPartitions_iff, if_pos (matchesDefault_iff.mpr (.inl rfl)), withDefault_of_not hp]
    exact hsome.symm
  rw [htrue]
  intro hother
  rw [matchingPartitions_iff, hp, if_neg Bool.false_ne_true] at hother
  obtain ⟨_, _, _, hmem, _⟩ := hother
  exact absurd hmem List.not_mem_nil

theorem byWildcard_withDefault : ByWildcard wildMatch (withDefault p) ↔ ByWildcard wildMatch p := by
  cases p with
  | nil =>
    constructor
    · exact fun h => absurd h.1 (by decide)
    · exact fun h => absurd h.1 (by decide)
  | cons name names => exact Iff.rfl

theorem withDefault_withDefault : withDefault (withDefault s) = withDefault s := by
  cases s <;> rfl

/-- The default partition is treated alike on both sides unless it is a zero-length sequence that
meets a sequence which includes it only by a wildcard. -/
theorem uniform_iff (wildMatch : List Char → List Char → Bool) (p s : List (List Char)) :
    Uniform wildMatch p s ↔
      ¬ (s = [] ∧ ByWildcard wildMatch p) ∧ ¬ (p = [] ∧ ByWildcard wildMatch s) := by
  constructor
  · intro h
    constructor
    · rintro ⟨rfl, hp⟩
      exact not_matching_of_byWildcard hp h.1
    · rintro ⟨rfl, hs⟩
      exact not_matching_of_byWildcard hs h.1.symm
  · rintro ⟨hp, hs⟩
    have heq : matchingPartitions wildMatch p s = true ↔
        SomeMatch wildMatch (withDefault p) (withDefault s) := matchingPartitions_eq_iff hp
    refine ⟨?_, ?_, ?_⟩ <;> rw [Bool.eq_iff_iff, heq]
    · rw [matchingPartitions_eq_iff hs]
      exact ⟨SomeMatch.symm, SomeMatch.symm⟩
    · rw [matchingPartitions_eq_iff fun h => hp ⟨h.1, byWildcard_withDefault.mp h.2⟩,
        withDefault_withDefault]
    · rw [matchingPartitions_eq_iff fun h => withDefault_ne_nil h.1, withDefault_withDefault]

end

open Library.Wildcard in
/-- A publisher in the default partition meets a subscriber of `*`; a subscriber in the default
partition does not meet a publisher of `*`. -/
theorem default_meets_wildcard :
    ¬ ∀ p s : List (List Char), Uniform (wildMatch plainClasses) p s := by
  intro h
  have hstar : wildMatch plainClasses [] ['*'] = true := by
    simp [wildMatch, pieces, accepts]
  refine not_matching_of_byWildcard ⟨rfl, ['*'], List.mem_singleton_self _, rfl, hstar⟩ ?_
  exact (h [['*']] []).1

end OpenDDS.Guarantees.PartitionSymmetry
