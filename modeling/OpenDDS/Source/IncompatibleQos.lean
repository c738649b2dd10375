import OpenDDS.Source.QosMatching
import Mathlib.Algebra.BigOperators.Group.List.Basic
import Mathlib.Algebra.Ring.Int.Defs

/-!
# The counts of incompatible policies

`increment_incompatibility_count` and the functions `compatibleQOS` of dds/DCPS/DCPS_Utils.cpp
with the statuses they write. Their verdict is `QosMatching.compatibleQOS`.
-/
namespace OpenDDS.Source.IncompatibleQos

open QosMatching
open QosHelper (durationLess)

section

def durabilityQosPolicyId : Nat := 2
def presentationQosPolicyId : Nat := 3
def deadlineQosPolicyId : Nat := 4
def latencybudgetQosPolicyId : Nat := 5
def ownershipQosPolicyId : Nat := 6
def livelinessQosPolicyId : Nat := 8
def reliabilityQosPolicyId : Nat := 11
def destinationorderQosPolicyId : Nat := 12
def transporttypeQosPolicyId : Nat := 0x7fffffff

end

structure QosPolicyCount where
  policyId : Nat
  count : BitVec 32
  deriving DecidableEq

structure IncompatibleQosStatus where
  totalCount : BitVec 32
  countSinceLastSend : BitVec 32
  lastPolicyId : Nat
  policies : List QosPolicyCount
  deriving DecidableEq

/-- The loop over the policies: the first entry is counted up, or a new one appended. -/
def incrementPolicies (incompatiblePolicy : Nat) : List QosPolicyCount → List QosPolicyCount
  | [] => [⟨incompatiblePolicy, 1⟩]
  | policy :: policies =>
    if policy.policyId = incompatiblePolicy then ⟨policy.policyId, policy.count + 1⟩ :: policies
    else policy :: incrementPolicies incompatiblePolicy policies

/-- `increment_incompatibility_count`. -/
def IncompatibleQosStatus.increment (status : IncompatibleQosStatus) (incompatiblePolicy : Nat) :
    IncompatibleQosStatus where
  totalCount := status.totalCount + 1
  countSinceLastSend := status.countSinceLastSend + 1
  lastPolicyId := incompatiblePolicy
  policies := incrementPolicies incompatiblePolicy status.policies

/-- `writerStatus` and `readerStatus`. -/
structure Statuses where
  writer : IncompatibleQosStatus
  reader : IncompatibleQosStatus
  deriving DecidableEq

def Statuses.increment (statuses : Statuses) (incompatiblePolicy : Nat) : Statuses :=
  ⟨statuses.writer.increment incompatiblePolicy, statuses.reader.increment incompatiblePolicy⟩

/-- One check: a violated policy is counted on both sides and ends the compatibility. -/
def check (violated : Bool) (policyId : Nat) (result : Bool × Statuses) : Bool × Statuses :=
  if violated then (false, result.2.increment policyId) else result

variable {δ : Type}

/-- `compatibleQOS` of a `DataWriterQos` and a `DataReaderQos`. -/
def countData (writerQos readerQos : DataQos δ) (statuses : Statuses) : Bool × Statuses :=
  (true, statuses)
  |> check (decide (writerQos.reliability.ctorIdx < readerQos.reliability.ctorIdx))
      reliabilityQosPolicyId
  |> check (decide (writerQos.durability.ctorIdx < readerQos.durability.ctorIdx))
      durabilityQosPolicyId
  |> check (decide (writerQos.liveliness.ctorIdx < readerQos.liveliness.ctorIdx) ||
      durationLess readerQos.leaseDuration writerQos.leaseDuration) livelinessQosPolicyId
  |> check (durationLess readerQos.deadline writerQos.deadline) deadlineQosPolicyId
  |> check (durationLess readerQos.latencyBudget writerQos.latencyBudget) latencybudgetQosPolicyId
  |> check (writerQos.ownership != readerQos.ownership) ownershipQosPolicyId

/-- `compatibleQOS` of a `PublisherQos` and a `SubscriberQos`. -/
def countGroup (pubQos subQos : GroupQos δ) (statuses : Statuses) : Bool × Statuses :=
  (true, statuses)
  |> check (decide (pubQos.accessScope.ctorIdx < subQos.accessScope.ctorIdx) ||
      (!pubQos.coherentAccess && subQos.coherentAccess) ||
      (!pubQos.orderedAccess && subQos.orderedAccess)) presentationQosPolicyId

/-- `compatible = compatible && compatibleQOS(..)`: the call is made if all is well so far. -/
def andThen (result : Bool × Statuses) (next : Statuses → Bool × Statuses) : Bool × Statuses :=
  if result.1 then next result.2 else result

/-- `compatibleQOS` of two endpoints. Partitions are not counted. -/
def countQOS (wildMatch : List Char → List Char → Bool) (writer reader : EndpointQos δ)
    (statuses : Statuses) : Bool × Statuses :=
  let result := check (!compatibleTransports writer.transports reader.transports)
    transporttypeQosPolicyId (true, statuses)
  let result := andThen result (countData writer.data reader.data)
  let result := andThen result (countGroup writer.group reader.group)
  (result.1 && matchingPartitions wildMatch writer.group.partition reader.group.partition, result.2)

section

def countIn (policyId : Nat) (policies : List QosPolicyCount) : Int :=
  ((policies.filter (·.policyId = policyId)).map (·.count.toInt)).sum

def IncompatibleQosStatus.countOf (status : IncompatibleQosStatus) (policyId : Nat) : Int :=
  countIn policyId status.policies

/-- The entries are of different policies. -/
def IncompatibleQosStatus.Distinct (status : IncompatibleQosStatus) : Prop :=
  (status.policies.map QosPolicyCount.policyId).Nodup

def IncompatibleQosStatus.Totals (status : IncompatibleQosStatus) : Prop :=
  status.totalCount.toInt = (status.policies.map (·.count.toInt)).sum

/-- The entry of the policy that is counted up, the first one, is not the largest `CORBA::Long`. -/
def Room (policyId : Nat) (policies : List QosPolicyCount) : Prop :=
  ∀ policy, policies.find? (·.policyId = policyId) = some policy → policy.count.toInt < 2 ^ 31 - 1

theorem toInt_add_one (count : BitVec 32) :
    (count + 1).toInt = if count.toInt < 2 ^ 31 - 1 then count.toInt + 1 else count.toInt + 1 - 2 ^ 32 := by
  have hlow : -2 ^ 31 ≤ count.toInt := BitVec.le_toInt count
  have hhigh : count.toInt < 2 ^ 31 := BitVec.toInt_lt
  rw [BitVec.toInt_add, show (1 : BitVec 32).toInt = 1 from rfl, Int.bmod_def]
  split <;> split <;> omega

theorem countIn_cons (policyId : Nat) (policy : QosPolicyCount) (policies : List QosPolicyCount) :
    countIn policyId (policy :: policies) =
      (if policy.policyId = policyId then policy.count.toInt else 0) + countIn policyId policies := by
  by_cases hid : policy.policyId = policyId
  · simp [countIn, hid]
  · simp [countIn, hid]

theorem room_cons {policyId : Nat} {policy : QosPolicyCount} {policies : List QosPolicyCount} :
    Room policyId (policy :: policies) ↔
      if policy.policyId = policyId then policy.count.toInt < 2 ^ 31 - 1 else Room policyId policies := by
  unfold Room
  by_cases hid : policy.policyId = policyId
  · simp [hid]
  · simp [hid]

variable {incompatiblePolicy policyId : Nat} {policies : List QosPolicyCount}

theorem countIn_incrementPolicies_self (hroom : Room policyId policies) :
    countIn policyId (incrementPolicies policyId policies) = countIn policyId policies + 1 := by
  induction policies with
  | nil => simp [incrementPolicies, countIn]
  | cons policy policies ih =>
    rw [room_cons] at hroom
    unfold incrementPolicies
    split <;> rename_i hid
    · rw [if_pos hid] at hroom
      simp only [countIn_cons, hid, if_true, toInt_add_one, hroom]
      omega
    · rw [if_neg hid] at hroom
      rw [countIn_cons, ih hroom, countIn_cons]
      omega

theorem room_of_countIn
    (h : countIn policyId (incrementPolicies policyId policies) = countIn policyId policies + 1) :
    Room policyId policies := by
  induction policies with
  | nil => exact nofun
  | cons policy policies ih =>
    rw [room_cons]
    unfold incrementPolicies at h
    split <;> rename_i hid
    · simp only [hid, if_true, countIn_cons, toInt_add_one] at h
      split at h <;> omega
    · rw [if_neg hid, countIn_cons, countIn_cons] at h
      exact ih (by omega)

theorem incrementPolicies_other (hne : incompatiblePolicy ≠ policyId) :
    countIn policyId (incrementPolicies incompatiblePolicy policies) = countIn policyId policies ∧
      (Room policyId (incrementPolicies incompatiblePolicy policies) ↔ Room policyId policies) := by
  induction policies with
  | nil => simp [incrementPolicies, countIn, Room, hne]
  | cons policy policies ih =>
    unfold incrementPolicies
    split <;> rename_i hid
    · simp [countIn_cons, room_cons, hid, hne]
    · rw [countIn_cons, room_cons, ih.1, ih.2, ← countIn_cons, ← room_cons]
      exact ⟨rfl, Iff.rfl⟩

theorem sum_incrementPolicies (hroom : Room incompatiblePolicy policies) :
    ((incrementPolicies incompatiblePolicy policies).map (·.count.toInt)).sum =
      (policies.map (·.count.toInt)).sum + 1 := by
  induction policies with
  | nil => rfl
  | cons policy policies ih =>
    rw [room_cons] at hroom
    unfold incrementPolicies
    split <;> rename_i hid
    · rw [if_pos hid] at hroom
      simp only [List.map_cons, List.sum_cons, toInt_add_one, hroom, if_true]
      omega
    · rw [if_neg hid] at hroom
      simp only [List.map_cons, List.sum_cons, ih hroom]
      omega

theorem mem_incrementPolicies_ids :
    policyId ∈ (incrementPolicies incompatiblePolicy policies).map QosPolicyCount.policyId ↔
      policyId = incompatiblePolicy ∨ policyId ∈ policies.map QosPolicyCount.policyId := by
  induction policies with
  | nil => simp [incrementPolicies]
  | cons policy policies ih =>
    unfold incrementPolicies
    split
    · rename_i hid
      simp [hid]
    · simp only [List.map_cons, List.mem_cons, ih]
      tauto

theorem nodup_incrementPolicies
    (hdistinct : (policies.map QosPolicyCount.policyId).Nodup) (incompatiblePolicy : Nat) :
    ((incrementPolicies incompatiblePolicy policies).map QosPolicyCount.policyId).Nodup := by
  induction policies with
  | nil => simp [incrementPolicies]
  | cons policy policies ih =>
    rw [List.map_cons, List.nodup_cons] at hdistinct
    unfold incrementPolicies
    split
    · exact List.nodup_cons.2 hdistinct
    · rename_i hid
      refine List.nodup_cons.2 ⟨fun hmem => ?_, ih hdistinct.2⟩
      rcases mem_incrementPolicies_ids.1 hmem with hnew | hold
      · exact hid hnew
      · exact hdistinct.1 hold

variable {status : IncompatibleQosStatus}

theorem IncompatibleQosStatus.Distinct.increment (h : status.Distinct) (incompatiblePolicy : Nat) :
    (status.increment incompatiblePolicy).Distinct :=
  nodup_incrementPolicies h incompatiblePolicy

def IncompatibleQosStatus.countAll (status : IncompatibleQosStatus) (ids : List Nat) :
    IncompatibleQosStatus :=
  ids.foldl increment status

theorem countOf_countAll_other {ids : List Nat} (hnot : policyId ∉ ids) :
    (status.countAll ids).countOf policyId = status.countOf policyId := by
  induction ids generalizing status with
  | nil => rfl
  | cons id ids ih =>
    obtain ⟨hne, hnot⟩ := not_or.mp (mt List.mem_cons.mpr hnot)
    exact (@ih (status.increment id) hnot).trans (incrementPolicies_other (Ne.symm hne)).1

theorem countOf_countAll {ids : List Nat} (hnodup : ids.Nodup) (hmem : policyId ∈ ids) :
    (status.countAll ids).countOf policyId = status.countOf policyId + 1 ↔
      Room policyId status.policies := by
  induction ids generalizing status with
  | nil => cases hmem
  | cons id ids ih =>
    obtain ⟨hnot, hnodup⟩ := List.nodup_cons.mp hnodup
    have hstep : status.countAll (id :: ids) = (status.increment id).countAll ids := rfl
    rw [hstep]
    by_cases hid : id = policyId
    · subst hid
      rw [countOf_countAll_other hnot]
      exact ⟨room_of_countIn, countIn_incrementPolicies_self⟩
    · have hother := @incrementPolicies_other id policyId status.policies hid
      have hiff := @ih (status.increment id) hnodup ((List.mem_cons.mp hmem).resolve_left (Ne.symm hid))
      rw [show (status.increment id).countOf policyId = status.countOf policyId from hother.1] at hiff
      exact hiff.trans hother.2

theorem IncompatibleQosStatus.Distinct.countAll (h : status.Distinct) (ids : List Nat) :
    (status.countAll ids).Distinct := by
  induction ids generalizing status with
  | nil => exact h
  | cons id ids ih => exact ih (h.increment id)

theorem sum_countAll {ids : List Nat} (hnodup : ids.Nodup)
    (hroom : ∀ id ∈ ids, Room id status.policies) :
    ((status.countAll ids).policies.map (·.count.toInt)).sum =
      (status.policies.map (·.count.toInt)).sum + ids.length := by
  induction ids generalizing status with
  | nil => simp [IncompatibleQosStatus.countAll]
  | cons id ids ih =>
    obtain ⟨hnot, hnodup⟩ := List.nodup_cons.mp hnodup
    have hstep : status.countAll (id :: ids) = (status.increment id).countAll ids := rfl
    rw [hstep, ih hnodup]
    · rw [show (status.increment id).policies = incrementPolicies id status.policies from rfl,
        sum_incrementPolicies (hroom id List.mem_cons_self), List.length_cons]
      omega
    · intro id' hid'
      have hne : id ≠ id' := fun heq => hnot (heq ▸ hid')
      exact (incrementPolicies_other hne).2.mpr (hroom id' (List.mem_cons_of_mem _ hid'))

theorem totalCount_countAll (status : IncompatibleQosStatus) (ids : List Nat) :
    (status.countAll ids).totalCount = status.totalCount + BitVec.ofNat 32 ids.length := by
  induction ids generalizing status with
  | nil => simp [IncompatibleQosStatus.countAll]
  | cons id ids ih =>
    have hstep : status.countAll (id :: ids) = (status.increment id).countAll ids := rfl
    rw [hstep, ih, List.length_cons, BitVec.ofNat_add, BitVec.add_comm (BitVec.ofNat 32 ids.length),
      ← BitVec.add_assoc]
    rfl

theorem totals_countAll {ids : List Nat} (hnodup : ids.Nodup)
    (hroom : ∀ id ∈ ids, Room id status.policies) (hfew : ids.length < 2 ^ 31)
    (htotals : status.Totals) :
    (status.countAll ids).Totals ↔ status.totalCount.toInt + ids.length < 2 ^ 31 := by
  have hlow : -2 ^ 31 ≤ status.totalCount.toInt := BitVec.le_toInt _
  have hhigh : status.totalCount.toInt < 2 ^ 31 := BitVec.toInt_lt
  have hlength : (BitVec.ofNat 32 ids.length).toInt = ids.length := by
    rw [BitVec.toInt_ofNat']
    exact Int.bmod_eq_of_le (by omega) (by omega)
  unfold IncompatibleQosStatus.Totals at htotals ⊢
  rw [totalCount_countAll, sum_countAll hnodup hroom, ← htotals, BitVec.toInt_add, hlength, Int.bmod_def]
  split <;> omega

end

section

def Statuses.countAll (statuses : Statuses) (ids : List Nat) : Statuses :=
  ⟨statuses.writer.countAll ids, statuses.reader.countAll ids⟩

@[simp] theorem Statuses.countAll_nil (statuses : Statuses) : statuses.countAll [] = statuses := rfl

def violation (violated : Bool) (policyId : Nat) : List Nat := if violated then [policyId] else []

@[simp] theorem mem_violation {violated : Bool} {policyId id : Nat} :
    id ∈ violation violated policyId ↔ violated ∧ id = policyId := by
  cases violated <;> simp [violation]

@[simp] theorem isEmpty_violation (violated : Bool) (policyId : Nat) :
    (violation violated policyId).isEmpty = !violated := by
  cases violated <;> rfl

@[simp] theorem isEmpty_append_violation (ids : List Nat) (violated : Bool) (policyId : Nat) :
    (ids ++ violation violated policyId).isEmpty = (ids.isEmpty && !violated) := by
  cases violated <;> cases ids <;> rfl

@[simp] theorem check_countAll (violated : Bool) (policyId : Nat) (ids : List Nat)
    (statuses : Statuses) :
    check violated policyId (ids.isEmpty, statuses.countAll ids) =
      ((ids ++ violation violated policyId).isEmpty,
        statuses.countAll (ids ++ violation violated policyId)) := by
  cases violated with
  | false => simp [check, violation]
  | true =>
    simp [check, violation, Statuses.countAll, Statuses.increment, IncompatibleQosStatus.countAll]

/-- The policies that `compatibleQOS` of a writer and a reader counts. -/
def dataViolations (writerQos readerQos : DataQos δ) : List Nat :=
  violation (decide (writerQos.reliability.ctorIdx < readerQos.reliability.ctorIdx))
    reliabilityQosPolicyId ++
  violation (decide (writerQos.durability.ctorIdx < readerQos.durability.ctorIdx))
    durabilityQosPolicyId ++
  violation (decide (writerQos.liveliness.ctorIdx < readerQos.liveliness.ctorIdx) ||
    durationLess readerQos.leaseDuration writerQos.leaseDuration) livelinessQosPolicyId ++
  violation (durationLess readerQos.deadline writerQos.deadline) deadlineQosPolicyId ++
  violation (durationLess readerQos.latencyBudget writerQos.latencyBudget) latencybudgetQosPolicyId ++
  violation (writerQos.ownership != readerQos.ownership) ownershipQosPolicyId

/-- The policy that `compatibleQOS` of a publisher and a subscriber counts. -/
def groupViolations (pubQos subQos : GroupQos δ) : List Nat :=
  violation (!compatibleGroup pubQos subQos) presentationQosPolicyId

def transportViolations (writer reader : EndpointQos δ) : List Nat :=
  violation (!compatibleTransports writer.transports reader.transports) transporttypeQosPolicyId

/-- The first of the three groups of checks with a violation is the one that is reported. -/
def reported (writer reader : EndpointQos δ) : List Nat :=
  if transportViolations writer reader ≠ [] then transportViolations writer reader
  else if dataViolations writer.data reader.data ≠ [] then dataViolations writer.data reader.data
  else groupViolations writer.group reader.group

theorem countData_eq (writerQos readerQos : DataQos δ) (statuses : Statuses) :
    countData writerQos readerQos statuses =
      ((dataViolations writerQos readerQos).isEmpty,
        statuses.countAll (dataViolations writerQos readerQos)) := by
  have hstart : (true, statuses) = (([] : List Nat).isEmpty, statuses.countAll []) := rfl
  simp only [countData, dataViolations]
  rw [hstart]
  simp only [check_countAll, List.nil_append]

theorem countGroup_eq (pubQos subQos : GroupQos δ) (statuses : Statuses) :
    countGroup pubQos subQos statuses =
      ((groupViolations pubQos subQos).isEmpty, statuses.countAll (groupViolations pubQos subQos)) := by
  have hstart : (true, statuses) = (([] : List Nat).isEmpty, statuses.countAll []) := rfl
  simp only [countGroup, groupViolations, compatibleGroup, Bool.not_not]
  rw [hstart, check_countAll, List.nil_append]

theorem isEmpty_dataViolations (writerQos readerQos : DataQos δ) :
    (dataViolations writerQos readerQos).isEmpty = compatibleData writerQos readerQos := by
  simp only [dataViolations, isEmpty_append_violation, isEmpty_violation, compatibleData, bne,
    Bool.not_not]

theorem countQOS_eq (wildMatch : List Char → List Char → Bool) (writer reader : EndpointQos δ)
    (statuses : Statuses) :
    countQOS wildMatch writer reader statuses =
      (compatibleQOS wildMatch writer reader, statuses.countAll (reported writer reader)) := by
  unfold countQOS reported compatibleQOS andThen check
  rw [← isEmpty_dataViolations]
  cases htransports : compatibleTransports writer.transports reader.transports with
  | false => simp [transportViolations, violation, htransports, Statuses.countAll, Statuses.increment,
      IncompatibleQosStatus.countAll]
  | true =>
    simp only [transportViolations, htransports, countData_eq, countGroup_eq, groupViolations]
    cases hdata : dataViolations writer.data reader.data with
    | nil => cases compatibleGroup writer.group reader.group <;> simp [violation]
    | cons id ids => simp [violation]

end

end OpenDDS.Source.IncompatibleQos
