import OpenDDS.Source.IncompatibleQos
import Mathlib.Data.Prod.Lex
import Mathlib.Order.Lattice.Nat
import Mathlib.Data.Int.ConditionallyCompleteOrder

/-!
# What requested/offered matching reports

The verdict and the counts of `compatibleQOS` against the requested/offered policies of DDS. The
destination order is never looked at. The checks are made in three groups (transport type, writer
and reader, publisher and subscriber), and a group is only reached if the one before has found
nothing, so that violations in two groups are not both counted. The counts are of 32 bits.
-/
namespace OpenDDS.Guarantees.PolicyReports

open Source Source.QosMatching Source.IncompatibleQos
open Source.QosHelper (durationInfinite durationLess)

variable {δ : Type}

section

/-- Durations in their order: the infinite one is above the others. -/
def rank (t : Duration_t) : WithTop (Int ×ₗ Nat) :=
  if t = durationInfinite then ⊤
  else ((toLex (t.sec.toInt, t.nanosec.toNat) : Int ×ₗ Nat) : WithTop (Int ×ₗ Nat))

theorem less_iff (t1 t2 : Duration_t) : durationLess t1 t2 ↔ rank t1 < rank t2 := by
  unfold durationLess rank
  by_cases h1 : t1 = durationInfinite
  · simp [h1]
  · by_cases h2 : t2 = durationInfinite
    · simp [h1, h2]
    · simp [h1, h2, Prod.Lex.toLex_lt_toLex, BitVec.slt_iff_toInt_lt, BitVec.ult,
        BitVec.toInt_inj]

end

inductive DestinationOrder where
  | byReceptionTimestamp
  | bySourceTimestamp
  deriving DecidableEq

/-- What a match depends on, apart from the partitions: the transport types and the
requested/offered policies. -/
inductive Policy where
  | transportType
  | reliability
  | durability
  | liveliness
  | deadline
  | latencyBudget
  | ownership
  | presentation
  | destinationOrder
  deriving DecidableEq

def Policy.id : Policy → Nat
  | .transportType => transporttypeQosPolicyId
  | .reliability => reliabilityQosPolicyId
  | .durability => durabilityQosPolicyId
  | .liveliness => livelinessQosPolicyId
  | .deadline => deadlineQosPolicyId
  | .latencyBudget => latencybudgetQosPolicyId
  | .ownership => ownershipQosPolicyId
  | .presentation => presentationQosPolicyId
  | .destinationOrder => destinationorderQosPolicyId

theorem Policy.id_injective : Function.Injective Policy.id := by
  intro p p' hid
  cases p <;> cases p' <;> first | rfl | exact absurd hid (by decide)

/-- The group of checks that a policy belongs to; the last one is not made. -/
def Policy.stage : Policy → Nat
  | .transportType => 0
  | .presentation => 2
  | .destinationOrder => 3
  | _ => 1

variable (destinationOrder : δ → DestinationOrder)

/-- A policy is violated if less is offered than requested. -/
def Violated (writer reader : EndpointQos δ) : Policy → Prop
  | .transportType => ∀ type ∈ writer.transports, type ∉ reader.transports
  | .reliability => writer.data.reliability.ctorIdx < reader.data.reliability.ctorIdx
  | .durability => writer.data.durability.ctorIdx < reader.data.durability.ctorIdx
  | .liveliness => writer.data.liveliness.ctorIdx < reader.data.liveliness.ctorIdx ∨
      rank reader.data.leaseDuration < rank writer.data.leaseDuration
  | .deadline => rank reader.data.deadline < rank writer.data.deadline
  | .latencyBudget => rank reader.data.latencyBudget < rank writer.data.latencyBudget
  | .ownership => writer.data.ownership ≠ reader.data.ownership
  | .presentation => writer.group.accessScope.ctorIdx < reader.group.accessScope.ctorIdx ∨
      (reader.group.coherentAccess ∧ ¬ writer.group.coherentAccess) ∨
      (reader.group.orderedAccess ∧ ¬ writer.group.orderedAccess)
  | .destinationOrder => (destinationOrder writer.data.other).ctorIdx <
      (destinationOrder reader.data.other).ctorIdx

/-- The counts of a status are those before, with one more for each violated policy. -/
structure Follows (violated : Policy → Prop) (before after : IncompatibleQosStatus) : Prop where
  counted : ∀ p, violated p → after.countOf p.id = before.countOf p.id + 1
  kept : ∀ id, (∀ p, violated p → p.id ≠ id) → after.countOf id = before.countOf id
  distinct : before.Distinct → after.Distinct
  totals : before.Totals → after.Totals

/-- The verdict is right, and both statuses say why. -/
structure Exact (wildMatch : List Char → List Char → Bool) (writer reader : EndpointQos δ)
    (statuses : Statuses) : Prop where
  verdict : (countQOS wildMatch writer reader statuses).1 ↔
    matchingPartitions wildMatch writer.group.partition reader.group.partition ∧
      ∀ p, ¬ Violated destinationOrder writer reader p
  atWriter : Follows (Violated destinationOrder writer reader) statuses.writer
    (countQOS wildMatch writer reader statuses).2.writer
  atReader : Follows (Violated destinationOrder writer reader) statuses.reader
    (countQOS wildMatch writer reader statuses).2.reader

section

variable {destinationOrder} {writer reader : EndpointQos δ}

/-- The policies that a group of checks counts. -/
def stageViolations (writer reader : EndpointQos δ) : Nat → List Nat
  | 0 => transportViolations writer reader
  | 1 => dataViolations writer.data reader.data
  | 2 => groupViolations writer.group reader.group
  | _ => []

theorem exists_policy {P : Policy → Prop} :
    (∃ p, P p) ↔ P .transportType ∨ P .reliability ∨ P .durability ∨ P .liveliness ∨ P .deadline ∨
      P .latencyBudget ∨ P .ownership ∨ P .presentation ∨ P .destinationOrder := by
  constructor
  · rintro ⟨p, hp⟩
    cases p <;> simp [hp]
  · rintro (h | h | h | h | h | h | h | h | h) <;> exact ⟨_, h⟩

variable (destinationOrder) in
theorem mem_stageViolations {n : Nat} (hn : n < 3) (id : Nat) :
    id ∈ stageViolations writer reader n ↔
      ∃ p : Policy, p.stage = n ∧ Violated destinationOrder writer reader p ∧ id = p.id := by
  rw [exists_policy]
  match n with
  | 0 => simp [Policy.stage, stageViolations, transportViolations, compatibleTransports, Violated,
      Policy.id]
  | 1 =>
    simp only [stageViolations, dataViolations, List.mem_append, mem_violation, Policy.stage,
      Violated, Policy.id, less_iff, decide_eq_true_eq, Bool.or_eq_true, bne_iff_ne]
    simp [or_assoc]
  | 2 =>
    simp only [stageViolations, groupViolations, mem_violation, compatibleGroup, Policy.stage,
      Violated, Policy.id]
    simp [or_assoc, and_comm]

variable (destinationOrder) in
theorem stageViolations_ne_nil {n : Nat} (hn : n < 3) :
    stageViolations writer reader n ≠ [] ↔
      ∃ p : Policy, p.stage = n ∧ Violated destinationOrder writer reader p := by
  rw [List.ne_nil_iff_length_pos, List.length_pos_iff_exists_mem]
  simp only [mem_stageViolations destinationOrder hn]
  constructor
  · rintro ⟨id, p, hstage, hviolated, -⟩
    exact ⟨p, hstage, hviolated⟩
  · rintro ⟨p, hstage, hviolated⟩
    exact ⟨p.id, p, hstage, hviolated, rfl⟩

/-- A violated policy of the first group with one. -/
def First (destinationOrder : δ → DestinationOrder) (writer reader : EndpointQos δ) (p : Policy) :
    Prop :=
  Violated destinationOrder writer reader p ∧ p.stage < 3 ∧
    ∀ p', Violated destinationOrder writer reader p' → p.stage ≤ p'.stage

theorem mem_first {n : Nat} (hn : n < 3) (hne : stageViolations writer reader n ≠ [])
    (hbelow : ∀ m < n, ¬ stageViolations writer reader m ≠ []) (id : Nat) :
    id ∈ stageViolations writer reader n ↔
      ∃ p : Policy, First destinationOrder writer reader p ∧ id = p.id := by
  have hleast : ∀ p', Violated destinationOrder writer reader p' → n ≤ p'.stage := by
    intro p' hp'
    by_contra hlt
    have hlt : p'.stage < n := by omega
    exact hbelow _ hlt ((stageViolations_ne_nil destinationOrder (by omega)).2 ⟨p', rfl, hp'⟩)
  rw [mem_stageViolations destinationOrder hn]
  constructor
  · rintro ⟨p, hstage, hviolated, hid⟩
    exact ⟨p, ⟨hviolated, hstage ▸ hn, hstage ▸ hleast⟩, hid⟩
  · rintro ⟨p, ⟨hviolated, -, hfirst⟩, hid⟩
    obtain ⟨p', hstage, hp'⟩ := (stageViolations_ne_nil destinationOrder hn).1 hne
    have hle := hfirst p' hp'
    have hge := hleast p hviolated
    exact ⟨p, by omega, hviolated, hid⟩

variable (destinationOrder) in
theorem mem_reported (id : Nat) :
    id ∈ reported writer reader ↔
      ∃ p : Policy, First destinationOrder writer reader p ∧ id = p.id := by
  unfold reported
  split
  · rename_i htransports
    exact mem_first (n := 0) (by decide) htransports (by simp) id
  · rename_i htransports
    split
    · rename_i hdata
      refine mem_first (n := 1) (by decide) hdata (fun m hm => ?_) id
      obtain rfl : m = 0 := by omega
      exact htransports
    · rename_i hdata
      have hbelow : ∀ m < 2, ¬ stageViolations writer reader m ≠ [] := by
        intro m hm
        obtain rfl | rfl : m = 0 ∨ m = 1 := by omega
        · exact htransports
        · exact hdata
      by_cases hgroup : stageViolations writer reader 2 ≠ []
      · exact mem_first (n := 2) (by decide) hgroup hbelow id
      · have hnil : groupViolations writer.group reader.group = [] := not_not.1 hgroup
        simp only [hnil, List.not_mem_nil, false_iff]
        rintro ⟨p, ⟨hviolated, hstage, -⟩, -⟩
        have hne := (stageViolations_ne_nil destinationOrder hstage).2 ⟨p, rfl, hviolated⟩
        obtain hlt | heq : p.stage < 2 ∨ p.stage = 2 := by omega
        · exact hbelow _ hlt hne
        · exact hgroup (heq ▸ hne)

theorem nodup_dataViolations (writerQos readerQos : DataQos δ) :
    (dataViolations writerQos readerQos).Nodup := by
  have hsub : ∀ (violated : Bool) (policyId : Nat),
      List.Sublist (violation violated policyId) [policyId] := by
    intro violated policyId
    cases violated <;> simp [violation]
  refine List.Nodup.sublist (((((hsub _ _).append (hsub _ _)).append (hsub _ _)).append
    (hsub _ _)).append (hsub _ _) |>.append (hsub _ _)) ?_
  decide

theorem nodup_reported (writer reader : EndpointQos δ) : (reported writer reader).Nodup := by
  have hone : ∀ (violated : Bool) (policyId : Nat), (violation violated policyId).Nodup := by
    intro violated policyId
    cases violated <;> simp [violation]
  unfold reported
  split
  · exact hone _ _
  · split
    · exact nodup_dataViolations _ _
    · exact hone _ _

variable (destinationOrder) in
theorem compatibleQOS_iff (wildMatch : List Char → List Char → Bool) :
    compatibleQOS wildMatch writer reader ↔
      matchingPartitions wildMatch writer.group.partition reader.group.partition ∧
        ∀ p : Policy, p.stage < 3 → ¬ Violated destinationOrder writer reader p := by
  have hempty : (compatibleTransports writer.transports reader.transports ∧
      compatibleData writer.data reader.data ∧ compatibleGroup writer.group reader.group) ↔
      ∀ n < 3, stageViolations writer reader n = [] := by
    rw [← isEmpty_dataViolations, List.isEmpty_iff]
    constructor
    · rintro ⟨htransports, hdata, hgroup⟩ n hn
      match n with
      | 0 => simp [stageViolations, transportViolations, violation, htransports]
      | 1 => exact hdata
      | 2 => simp [stageViolations, groupViolations, violation, hgroup]
    · intro hnil
      have htransports := hnil 0 (by decide)
      have hgroup := hnil 2 (by decide)
      simp only [stageViolations, transportViolations, groupViolations, violation] at htransports hgroup
      exact ⟨by simpa using htransports, hnil 1 (by decide), by simpa using hgroup⟩
  have hnone : (∀ n < 3, stageViolations writer reader n = []) ↔
      ∀ p : Policy, p.stage < 3 → ¬ Violated destinationOrder writer reader p := by
    constructor
    · intro hnil p hstage hviolated
      exact (stageViolations_ne_nil destinationOrder hstage).2 ⟨p, rfl, hviolated⟩ (hnil _ hstage)
    · intro hclean n hn
      by_contra hne
      obtain ⟨p, hstage, hviolated⟩ :=
        (stageViolations_ne_nil destinationOrder hn).1 hne
      exact hclean p (hstage ▸ hn) hviolated
  simp only [compatibleQOS, Bool.and_eq_true]
  tauto

theorem stage_le (p : Policy) : p.stage ≤ 3 := by
  cases p <;> decide

theorem stage_eq_three_iff (p : Policy) : p.stage = 3 ↔ p = .destinationOrder := by
  cases p <;> decide

end

section

variable {destinationOrder} {writer reader : EndpointQos δ}
  {wildMatch : List Char → List Char → Bool} {statuses : Statuses}

/-- The violated policies of all three groups. -/
def violations (writer reader : EndpointQos δ) : List Nat :=
  transportViolations writer reader ++ dataViolations writer.data reader.data ++
    groupViolations writer.group reader.group

theorem reported_eq (hsame : ∀ p p', Violated destinationOrder writer reader p →
    Violated destinationOrder writer reader p' → p.stage = p'.stage) :
    reported writer reader = violations writer reader := by
  have hone : ∀ m n, m < 3 → n < 3 → m ≠ n → stageViolations writer reader m ≠ [] →
      stageViolations writer reader n = [] := by
    intro m n hm hn hne hsome
    by_contra hother
    obtain ⟨p, hp, hviolated⟩ := (stageViolations_ne_nil destinationOrder hm).1 hsome
    obtain ⟨p', hp', hviolated'⟩ := (stageViolations_ne_nil destinationOrder hn).1 hother
    exact hne (hp.symm.trans ((hsame p p' hviolated hviolated').trans hp'))
  unfold reported violations
  split <;> rename_i htransports
  · rw [show dataViolations writer.data reader.data = [] from
        hone 0 1 (by decide) (by decide) (by decide) htransports,
      show groupViolations writer.group reader.group = [] from
        hone 0 2 (by decide) (by decide) (by decide) htransports]
    simp
  · rw [not_not.1 htransports]
    split <;> rename_i hdata
    · rw [show groupViolations writer.group reader.group = [] from
        hone 1 2 (by decide) (by decide) (by decide) hdata]
      simp
    · rw [not_not.1 hdata]
      rfl

theorem length_violations (writer reader : EndpointQos δ) : (violations writer reader).length ≤ 8 := by
  have hone : ∀ (violated : Bool) (policyId : Nat), (violation violated policyId).length ≤ 1 := by
    intro violated policyId
    cases violated <;> simp [violation]
  simp only [violations, transportViolations, dataViolations, groupViolations, List.length_append]
  grind

/-- No count of the status overflows: neither those of the violated policies, nor the total where it
is their sum. -/
structure Bounded (destinationOrder : δ → DestinationOrder) (writer reader : EndpointQos δ)
    (status : IncompatibleQosStatus) : Prop where
  counts : ∀ p, Violated destinationOrder writer reader p → Room p.id status.policies
  total : status.Totals → status.totalCount.toInt + (violations writer reader).length < 2 ^ 31

theorem follows_iff (hall : ∀ p, Violated destinationOrder writer reader p →
      p.id ∈ reported writer reader) (heq : reported writer reader = violations writer reader)
    (status : IncompatibleQosStatus) :
    Follows (Violated destinationOrder writer reader) status
      (status.countAll (reported writer reader)) ↔ Bounded destinationOrder writer reader status := by
  have hnodup := nodup_reported writer reader
  have hfew := length_violations writer reader
  have hroom : (∀ p, Violated destinationOrder writer reader p → Room p.id status.policies) →
      ∀ id ∈ reported writer reader, Room id status.policies := by
    intro hcounts id hmem
    obtain ⟨p, hfirst, rfl⟩ := (mem_reported destinationOrder id).1 hmem
    exact hcounts p hfirst.1
  constructor
  · intro h
    have hcounts : ∀ p, Violated destinationOrder writer reader p → Room p.id status.policies :=
      fun p hp => (countOf_countAll hnodup (hall p hp)).1 (h.counted p hp)
    refine ⟨hcounts, fun htotals => ?_⟩
    rw [← heq]
    exact (totals_countAll hnodup (hroom hcounts) (by rw [heq]; omega) htotals).1 (h.totals htotals)
  · intro h
    refine ⟨fun p hp => (countOf_countAll hnodup (hall p hp)).2 (h.counts p hp), fun id hother => ?_,
      fun hdistinct => hdistinct.countAll _, fun htotals => ?_⟩
    · refine countOf_countAll_other fun hmem => ?_
      obtain ⟨p, hfirst, rfl⟩ := (mem_reported destinationOrder id).1 hmem
      exact hother p hfirst.1 rfl
    · refine (totals_countAll hnodup (hroom h.counts) (by rw [heq]; omega) htotals).2 ?_
      rw [heq]
      exact h.total htotals

theorem mem_reported_of_follows {status : IncompatibleQosStatus}
    (h : Follows (Violated destinationOrder writer reader) status
      (status.countAll (reported writer reader))) {p : Policy}
    (hviolated : Violated destinationOrder writer reader p) :
    First destinationOrder writer reader p := by
  have hcount := h.counted p hviolated
  have hmem : p.id ∈ reported writer reader := by
    by_contra hnot
    rw [countOf_countAll_other hnot] at hcount
    omega
  obtain ⟨p', hfirst, hid⟩ := (mem_reported destinationOrder p.id).1 hmem
  rwa [Policy.id_injective hid]

/-- Matching is exact and fully reported if and only if the destination order is not violated, all
violated policies belong to one of the three groups of checks, and no count overflows. -/
theorem policies_reported_iff (wildMatch : List Char → List Char → Bool)
    (destinationOrder : δ → DestinationOrder) (writer reader : EndpointQos δ) (statuses : Statuses) :
    Exact destinationOrder wildMatch writer reader statuses ↔
      ¬ Violated destinationOrder writer reader .destinationOrder ∧
      (∀ p p', Violated destinationOrder writer reader p →
        Violated destinationOrder writer reader p' → p.stage = p'.stage) ∧
      Bounded destinationOrder writer reader statuses.writer ∧
      Bounded destinationOrder writer reader statuses.reader := by
  constructor
  · intro h
    have hwriter := h.atWriter
    have hreader := h.atReader
    rw [countQOS_eq] at hwriter hreader
    have hfirst : ∀ p, Violated destinationOrder writer reader p →
        First destinationOrder writer reader p := fun p => mem_reported_of_follows hwriter
    have hsame : ∀ p p', Violated destinationOrder writer reader p →
        Violated destinationOrder writer reader p' → p.stage = p'.stage := fun p p' hp hp' =>
      Nat.le_antisymm ((hfirst p hp).2.2 p' hp') ((hfirst p' hp').2.2 p hp)
    have hall : ∀ p, Violated destinationOrder writer reader p → p.id ∈ reported writer reader :=
      fun p hp => (mem_reported destinationOrder p.id).2 ⟨p, hfirst p hp, rfl⟩
    have hiff := follows_iff hall (reported_eq hsame)
    exact ⟨fun horder => absurd (hfirst _ horder).2.1 (by decide), hsame,
      (hiff _).1 hwriter, (hiff _).1 hreader⟩
  · rintro ⟨horder, hsame, hwriter, hreader⟩
    have hstage : ∀ p, Violated destinationOrder writer reader p → p.stage < 3 := by
      intro p hviolated
      have hle := stage_le p
      by_contra hge
      obtain rfl := (stage_eq_three_iff p).1 (by omega)
      exact horder hviolated
    have hall : ∀ p, Violated destinationOrder writer reader p →
        p.id ∈ reported writer reader := fun p hviolated =>
      (mem_reported destinationOrder p.id).2
        ⟨p, ⟨hviolated, hstage p hviolated, fun p' hp' => (hsame p p' hviolated hp').le⟩, rfl⟩
    have hiff := follows_iff hall (reported_eq hsame)
    refine ⟨?_, ?_, ?_⟩
    · rw [countQOS_eq, compatibleQOS_iff destinationOrder]
      refine and_congr_right fun _ => forall_congr' fun p => ?_
      exact ⟨fun hclean hviolated => hclean (hstage p hviolated) hviolated, fun hclean _ => hclean⟩
    · rw [countQOS_eq]
      exact (hiff statuses.writer).2 hwriter
    · rw [countQOS_eq]
      exact (hiff statuses.reader).2 hreader

end

def offered : EndpointQos DestinationOrder where
  data := ⟨.bestEffort, .volatile, .automatic, durationInfinite, durationInfinite, ⟨0, 0⟩, .shared,
    .byReceptionTimestamp⟩
  group := ⟨.instancePresentation, false, false, [], .byReceptionTimestamp⟩
  transports := ["tcp"]

def requested : EndpointQos DestinationOrder where
  data := ⟨.reliable, .volatile, .automatic, durationInfinite, durationInfinite, ⟨0, 0⟩, .shared,
    .byReceptionTimestamp⟩
  group := ⟨.instancePresentation, true, false, [], .byReceptionTimestamp⟩
  transports := ["tcp"]

def bySource : EndpointQos DestinationOrder where
  data := ⟨.bestEffort, .volatile, .automatic, durationInfinite, durationInfinite, ⟨0, 0⟩, .shared,
    .bySourceTimestamp⟩
  group := ⟨.instancePresentation, false, false, [], .byReceptionTimestamp⟩
  transports := ["tcp"]

def noStatuses : Statuses := ⟨⟨0, 0, 0, []⟩, ⟨0, 0, 0, []⟩⟩

/-- The presentation of `requested` is violated and not counted, and `bySource` is found
compatible although its destination order is violated. -/
theorem policies_not_reported :
    Violated id offered requested .presentation ∧
    (countQOS (fun _ _ => true) offered requested noStatuses).2.writer.countOf
      Policy.presentation.id = 0 ∧
    Violated id offered bySource .destinationOrder ∧
    (countQOS (fun _ _ => true) offered bySource noStatuses).1 = true ∧
    ¬ ∀ writer reader statuses, Exact id (fun _ _ => true) writer reader statuses := by
  have hviolated : Violated id offered bySource .destinationOrder := by
    simp [Violated, offered, bySource]
    decide
  refine ⟨.inr (.inl ⟨rfl, by decide⟩), by decide, hviolated, by decide, fun hall => ?_⟩
  exact ((hall offered bySource noStatuses).verdict.1 (by decide)).2 _ hviolated

end OpenDDS.Guarantees.PolicyReports
