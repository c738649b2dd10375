import OpenDDS.Source.DataDurabilityCache
import Mathlib.Data.List.Count

/-!
# Durable history

The depth of the durability service is a number of samples of an instance. `insert` keeps that
many of the whole list. The instances have what they should if nothing has to be dropped or if
all samples are of one instance, else one of them has too few.
-/
namespace OpenDDS.Guarantees.DurableHistory

open Source Source.DataDurabilityCache

variable {σ κ : Type} [DecidableEq κ]

def ofKind {α : Type} (f : α → κ) (i : κ) (xs : List α) : List α := xs.filter fun x => f x = i

theorem length_rtake {α : Type} (xs : List α) (d : Nat) :
    (xs.rtake d).length = min d xs.length := by
  rw [List.rtake, List.length_drop]
  omega

theorem rtake_of_length_le {α : Type} {xs : List α} {d : Nat} (h : xs.length ≤ d) :
    xs.rtake d = xs := by
  rw [List.rtake, Nat.sub_eq_zero_of_le h, List.drop_zero]

theorem ofKind_eq_self {α : Type} {f : α → κ} {i : κ} {xs : List α} (h : ∀ x ∈ xs, f x = i) :
    ofKind f i xs = xs :=
  List.filter_eq_self.mpr fun x hx => by simpa using h x hx

theorem length_ofKind_lt {α : Type} {f : α → κ} {i : κ} {xs : List α} {x : α} (hx : x ∈ xs)
    (hi : f x ≠ i) : (ofKind f i xs).length < xs.length := by
  have hle := List.length_filter_le (fun x => decide (f x = i)) xs
  have hne : (ofKind f i xs).length ≠ xs.length := by
    intro heq
    have hall := List.length_filter_eq_length_iff.mp heq x hx
    exact hi (by simpa using hall)
  unfold ofKind at hne ⊢
  omega

/-- The last elements of a list are the last ones of each kind just if these are all or there is
but one kind. -/
theorem ofKind_rtake_iff {α : Type} (f : α → κ) (xs : List α) {d : Nat} (hd : 1 ≤ d) :
    (∀ i, ofKind f i (xs.rtake d) = (ofKind f i xs).rtake d) ↔
      xs.length ≤ d ∨ ∀ x ∈ xs, ∀ y ∈ xs, f x = f y := by
  constructor
  · intro h
    by_contra hcon
    obtain ⟨hlong, x, hx, y, hy, hxy⟩ : d < xs.length ∧ ∃ x ∈ xs, ∃ y ∈ xs, f x ≠ f y := by
      simpa using hcon
    have hcount : ∀ i, (ofKind f i (xs.rtake d)).length = min d (ofKind f i xs).length := by
      intro i
      rw [h i, length_rtake]
    have hsplit : xs = xs.take (xs.length - d) ++ xs.rtake d := by
      rw [List.rtake, List.take_append_drop]
    have hkept : (xs.rtake d).length = d := by
      rw [length_rtake]
      omega
    -- the first element is dropped
    obtain ⟨z, hz⟩ : ∃ z, z ∈ xs.take (xs.length - d) := by
      apply List.exists_mem_of_ne_nil
      intro hnil
      have hlen := congrArg List.length hnil
      simp only [List.length_take, List.length_nil] at hlen
      omega
    by_cases hother : ∃ w ∈ xs.rtake d, f w ≠ f z
    · obtain ⟨w, hw, hwz⟩ := hother
      have hfew := length_ofKind_lt hw hwz
      have hone : 0 < (ofKind f (f z) (xs.take (xs.length - d))).length :=
        List.length_pos_of_mem (List.mem_filter.mpr ⟨hz, by simp⟩)
      have hsum : (ofKind f (f z) xs).length =
          (ofKind f (f z) (xs.take (xs.length - d))).length +
            (ofKind f (f z) (xs.rtake d)).length := by
        conv_lhs => rw [hsplit]
        simp [ofKind]
      have hmin := hcount (f z)
      omega
    · -- all that is left is of one kind, and there is another one
      have hsame : ∀ w ∈ xs.rtake d, f w = f z := by simpa using hother
      obtain ⟨v, hv, hvz⟩ : ∃ v ∈ xs, f v ≠ f z := by
        by_cases hxz : f x = f z
        · exact ⟨y, hy, fun hyz => hxy (hxz.trans hyz.symm)⟩
        · exact ⟨x, hx, hxz⟩
      have hnone : ofKind f (f v) (xs.rtake d) = [] := by
        apply List.filter_eq_nil_iff.mpr
        intro w hw
        simp [hsame w hw, Ne.symm hvz]
      have hone : 0 < (ofKind f (f v) xs).length :=
        List.length_pos_of_mem (List.mem_filter.mpr ⟨hv, by simp⟩)
      have hmin := hcount (f v)
      rw [hnone, List.length_nil] at hmin
      omega
  · intro h i
    rcases h with hshort | hsame
    · have hle : (ofKind f i xs).length ≤ xs.length := List.length_filter_le _ _
      rw [rtake_of_length_le hshort, rtake_of_length_le (hle.trans hshort)]
    · by_cases hi : ∃ x ∈ xs, f x = i
      · obtain ⟨x, hx, hxi⟩ := hi
        have hall : ∀ y ∈ xs, f y = i := fun y hy => (hsame y hy x hx).trans hxi
        have hlast : ∀ y ∈ xs.rtake d, f y = i := fun y hy => hall y (List.mem_of_mem_drop hy)
        rw [ofKind_eq_self hall, ofKind_eq_self hlast]
      · have hnone : ∀ x ∈ xs, f x ≠ i := by simpa using hi
        have hxs : ofKind f i xs = [] := List.filter_eq_nil_iff.mpr (by simpa using hnone)
        have hlast : ofKind f i (xs.rtake d) = [] :=
          List.filter_eq_nil_iff.mpr fun y hy => by simpa using hnone y (List.mem_of_mem_drop hy)
        rw [hxs, hlast, List.rtake_nil]

/-- Of each instance the queue has the last samples of the list, at most `d`. -/
def KeepsLastOfEach (instanceOf : σ → κ) (d : Nat) (theData : List (DataSampleElement σ))
    (queued : List (SampleData σ)) : Prop :=
  ∀ i, ofKind (fun sample => instanceOf sample.sample) i queued =
    (ofKind (fun sample => instanceOf sample.sample) i (theData.map SampleData.ofElement)).rtake d

section

variable {env : Environment} {domainId : Int} {topicName typeName : String}
  {theData : List (DataSampleElement σ)} {qos : DurabilityServiceQosPolicy} {cache : Cache σ}

theorem keepsLastOfEach_iff (instanceOf : σ → κ)
    (hkind : qos.historyKind = keepLastHistoryQos) (hdepth : 1 ≤ qos.historyDepth)
    (hcoherent : ∀ elem ∈ theData, elem.coherentChange = false)
    (h : (DataDurabilityCache.insert env domainId topicName typeName theData qos cache).1 = true) :
    KeepsLastOfEach instanceOf qos.historyDepth.toNat theData
        ((DataDurabilityCache.insert env domainId topicName typeName theData qos cache).2.queued
          ⟨domainId, topicName, typeName⟩ (cache.nextSlot ⟨domainId, topicName, typeName⟩)) ↔
      (theData.length ≤ qos.historyDepth ∨
        ∀ x ∈ theData, ∀ y ∈ theData, instanceOf x.sample = instanceOf y.sample) := by
  by_cases hne : theData = []
  · subst hne
    have hnothing : (0 : Int) ≤ qos.historyDepth := by omega
    simp [KeepsLastOfEach, ofKind, DataDurabilityCache.insert, queued_nextSlot, hnothing]
  · rw [queued_insert hkind hdepth hcoherent h hne]
    have hd : 1 ≤ qos.historyDepth.toNat := by omega
    have hmap : (theData.rtake qos.historyDepth.toNat).map SampleData.ofElement =
        (theData.map SampleData.ofElement).rtake qos.historyDepth.toNat := by
      simp [List.rtake, List.map_drop]
    have hlength : theData.length ≤ qos.historyDepth ↔
        (theData.map SampleData.ofElement).length ≤ qos.historyDepth.toNat := by
      rw [List.length_map]
      omega
    unfold KeepsLastOfEach
    rw [hmap, ofKind_rtake_iff _ _ hd, hlength]
    simp [SampleData.ofElement]

end

section

def depthOne : DurabilityServiceQosPolicy := ⟨⟨0#32, 0#32⟩, keepLastHistoryQos, 1, -1, -1, -1⟩

def emptyCache : Cache (String × Nat) := ⟨transientDurabilityQos, [], [], []⟩

def calm : Environment := ⟨some "0", true, true, true, fun _ => true, fun _ => .written, 0⟩

def oneInstance : List (DataSampleElement (String × Nat)) :=
  [⟨⟨1#32, 0#32⟩, false, ("first", 1)⟩, ⟨⟨2#32, 0#32⟩, false, ("first", 2)⟩]

def twoInstances : List (DataSampleElement (String × Nat)) :=
  [⟨⟨1#32, 0#32⟩, false, ("first", 1)⟩, ⟨⟨2#32, 0#32⟩, false, ("second", 1)⟩]

def inserted (theData : List (DataSampleElement (String × Nat))) : Bool × Cache (String × Nat) :=
  DataDurabilityCache.insert calm 0 "Topic" "Type" theData depthOne emptyCache

theorem oneInstance_keepsLast :
    KeepsLastOfEach Prod.fst 1 oneInstance ((inserted oneInstance).2.queued ⟨0, "Topic", "Type"⟩ 0) :=
  (@keepsLastOfEach_iff _ _ _ calm 0 "Topic" "Type" oneInstance depthOne emptyCache Prod.fst rfl
    (by decide) (by decide) rfl).mpr (.inr (by decide))

/-- With depth 1 the sample of the first instance is gone. -/
theorem twoInstances_forgotten :
    (inserted twoInstances).1 = true ∧
      ¬ KeepsLastOfEach Prod.fst 1 twoInstances
        ((inserted twoInstances).2.queued ⟨0, "Topic", "Type"⟩ 0) :=
  ⟨rfl, fun h => absurd (h "first") (by decide)⟩

end

end OpenDDS.Guarantees.DurableHistory
