import OpenDDS.Library.Run
import OpenDDS.Source.QosHelper
import OpenDDS.Source.ReceivedDataElementList

/-!
# Samples in the order of their source timestamps

With `SourceDataStrategy` the list of an instance stays sorted by source timestamp, whatever
is added and removed in between, and samples with one timestamp stay in the order of their
arrival. The timestamps have to be valid ones: a time with `TIME_INVALID_SEC` in it is before
no other, so a sample of the last second before the epoch goes to the end of the list.
-/
namespace OpenDDS.Guarantees.SourceOrder

open Library Library.LinkedList Source Source.SampleLinks Source.QosHelper
open Function (update update_of_ne update_self)

/-- The list of an instance and its samples. `arrived` numbers the samples as they arrive. -/
structure Received where
  links : SampleLinks
  header : Header Nat
  sourceTimestamp : Nat → Time_t
  arrived : Nat → Nat
  arrivals : Nat

def Received.empty (links : SampleLinks) (sourceTimestamp : Nat → Time_t) : Received :=
  ⟨links, .empty, sourceTimestamp, fun _ => 0, 0⟩

inductive Call where
  | add (sample : Nat) (timestamp : Time_t)
  | remove (sample : Nat)
  | removeMatching (isMatch : Nat → Bool) (evalAll : Bool)

def Call.perform (s : Received) : Call → Option Received
  | add sample timestamp =>
    let sourceTimestamp := update s.sourceTimestamp sample timestamp
    (SourceDataStrategy.add s.links s.header sourceTimestamp sample).map fun added =>
      ⟨added.2.1, added.2.2, sourceTimestamp, update s.arrived sample s.arrivals,
        s.arrivals + 1⟩
  | remove sample =>
    (ReceivedDataElementList.remove s.links s.header sample).map fun removed =>
      { s with links := removed.2.1, header := removed.2.2 }
  | removeMatching isMatch evalAll =>
    (ReceivedDataElementList.removeMatching s.links s.header isMatch evalAll).map fun removed =>
      { s with links := removed.2.1, header := removed.2.2 }

/-- A sample is added when it is not on the list. -/
def Call.allowed (s : Received) : Call → Prop
  | add sample _ => ¬ Reaches s.links.nextDataSample s.header.head sample
  | _ => True

def trans (s : Received) (call : Call) (s' : Received) : Prop :=
  call.allowed s ∧ call.perform s = some s'

/-- Less than a second of nanoseconds, and not the invalid second. -/
structure Valid (t : Time_t) : Prop where
  nanosec : t.nanosec.toNat < 1000000000
  sec : t.sec ≠ timeInvalidSec

def Call.valid : Call → Prop
  | add _ timestamp => Valid timestamp
  | _ => True

/-- The sample is earlier, or of the same time and arrived earlier. -/
def Precedes (s : Received) (x y : Nat) : Prop :=
  nanos (s.sourceTimestamp x) < nanos (s.sourceTimestamp y) ∨
    s.sourceTimestamp x = s.sourceTimestamp y ∧ s.arrived x < s.arrived y

structure Ordered (s : Received) (xs : List Nat) : Prop where
  lists : Lists s.links s.header xs
  nodup : xs.Nodup
  sorted : xs.Pairwise (Precedes s)
  valid : ∀ x ∈ xs, Valid (s.sourceTimestamp x)
  arrived : ∀ x ∈ xs, s.arrived x < s.arrivals

variable {s s' : Received} {t t' : Time_t} {xs ys : List Nat} {sample : Nat}

theorem Valid.isInvalid (h : Valid t) : isInvalid t = false := by
  have hsec := h.sec
  have hnano : t.nanosec ≠ timeInvalidNsec := by
    intro heq
    have hlt := h.nanosec
    rw [heq] at hlt
    exact absurd hlt (by decide)
  simp [QosHelper.isInvalid, hsec, hnano]

theorem lt_iff_nanos (h : Valid t) (h' : Valid t') : t < t' ↔ nanos t < nanos t' := by
  have hnano := h.nanosec
  have hnano' := h'.nanosec
  have hless : t < t' ↔ t.sec.toInt < t'.sec.toInt ∨
      (t.sec.toInt = t'.sec.toInt ∧ t.nanosec.toNat < t'.nanosec.toNat) := by
    show less t t' = true ↔ _
    simp only [less, h.isInvalid, h'.isInvalid, Bool.or_self, Bool.false_eq_true, if_false,
      Bool.or_eq_true, Bool.and_eq_true, beq_iff_eq, BitVec.slt_iff_toInt_lt,
      BitVec.ult_iff_toNat_lt, BitVec.toInt_inj]
  rw [hless]
  unfold nanos
  omega

theorem eq_of_nanos (h : Valid t) (h' : Valid t') (heq : nanos t = nanos t') : t = t' := by
  have hnano := h.nanosec
  have hnano' := h'.nanosec
  unfold nanos at heq
  have hsec : t.sec.toInt = t'.sec.toInt := by omega
  have hnanosec : t.nanosec.toNat = t'.nanosec.toNat := by omega
  rw [Time_t.mk.injEq]
  exact ⟨BitVec.toInt_inj.mp hsec, BitVec.toNat_inj.mp hnanosec⟩

theorem Ordered.sublist (h : Ordered s xs) (hsub : ys.Sublist xs)
    (hlists : Lists s'.links s'.header ys) (htimes : s'.sourceTimestamp = s.sourceTimestamp)
    (harrived : s'.arrived = s.arrived) (harrivals : s'.arrivals = s.arrivals) : Ordered s' ys where
  lists := hlists
  nodup := h.nodup.sublist hsub
  sorted := by
    unfold Precedes
    rw [htimes, harrived]
    exact h.sorted.sublist hsub
  valid x hx := by
    rw [htimes]
    exact h.valid x (hsub.subset hx)
  arrived x hx := by
    rw [harrived, harrivals]
    exact h.arrived x (hsub.subset hx)

theorem sorted_insertSample (sorted : xs.Pairwise (Precedes s))
    (valid : ∀ x ∈ xs, Valid (s.sourceTimestamp x)) (hvalid : Valid (s.sourceTimestamp sample))
    (harrived : ∀ x ∈ xs, s.arrived x < s.arrived sample) :
    (SourceDataStrategy.insertSample s.sourceTimestamp sample xs).Pairwise (Precedes s) := by
  induction xs with
  | nil => exact List.pairwise_singleton _ _
  | cons x rest ih =>
    obtain ⟨hfirst, hrest⟩ := List.pairwise_cons.mp sorted
    have hx := valid x List.mem_cons_self
    rw [SourceDataStrategy.insertSample]
    split
    · rename_i hlt
      rw [lt_iff_nanos hvalid hx] at hlt
      refine List.pairwise_cons.mpr ⟨?_, sorted⟩
      intro y hy
      left
      rcases List.mem_cons.mp hy with rfl | hy
      · exact hlt
      · rcases hfirst y hy with hearlier | ⟨hsame, -⟩
        · omega
        · rwa [← hsame]
    · rename_i hge
      rw [lt_iff_nanos hvalid hx] at hge
      have hxsample : Precedes s x sample := by
        by_cases hsame : nanos (s.sourceTimestamp x) = nanos (s.sourceTimestamp sample)
        · exact .inr ⟨eq_of_nanos hx hvalid hsame, harrived x List.mem_cons_self⟩
        · left
          omega
      refine List.pairwise_cons.mpr ⟨?_, ?_⟩
      · intro y hy
        have hmem := (SourceDataStrategy.insertSample_perm s.sourceTimestamp sample rest).mem_iff.mp hy
        rcases List.mem_cons.mp hmem with rfl | hy
        · exact hxsample
        · exact hfirst y hy
      · apply ih hrest
        · exact fun y hy => valid y (List.mem_cons_of_mem _ hy)
        · exact fun y hy => harrived y (List.mem_cons_of_mem _ hy)

theorem Ordered.add (h : Ordered s xs) {timestamp : Time_t}
    (hallowed : (Call.add sample timestamp).allowed s) (hvalid : Valid timestamp) :
    ∃ s' xs', (Call.add sample timestamp).perform s = some s' ∧ Ordered s' xs' := by
  have hfresh : sample ∉ xs := by
    intro hmem
    apply hallowed
    rw [h.lists.head]
    exact (reaches_iff h.lists.forward).mpr hmem
  have hne : ∀ x ∈ xs, x ≠ sample := fun x hx heq => hfresh (heq ▸ hx)
  obtain ⟨atEnd, m', l', hadd, hlists, -, -⟩ := SourceDataStrategy.add_spec
    (update s.sourceTimestamp sample timestamp) h.lists h.nodup hfresh
  have hperm := SourceDataStrategy.insertSample_perm
    (update s.sourceTimestamp sample timestamp) sample xs
  let s' : Received := ⟨m', l', update s.sourceTimestamp sample timestamp,
    update s.arrived sample s.arrivals, s.arrivals + 1⟩
  have htime : ∀ x ∈ xs, s'.sourceTimestamp x = s.sourceTimestamp x :=
    fun x hx => update_of_ne (hne x hx) _ _
  have harrived : ∀ x ∈ xs, s'.arrived x = s.arrived x :=
    fun x hx => update_of_ne (hne x hx) _ _
  have htimeNew : s'.sourceTimestamp sample = timestamp := update_self ..
  have harrivedNew : s'.arrived sample = s.arrivals := update_self ..
  refine ⟨s', _, by simp only [Call.perform, hadd, Option.map_some, s'], hlists, ?_, ?_, ?_, ?_⟩
  · exact hperm.nodup_iff.mpr (List.nodup_cons.mpr ⟨hfresh, h.nodup⟩)
  · apply sorted_insertSample (s := s')
    · apply h.sorted.imp_of_mem
      intro x y hx hy hxy
      unfold Precedes
      rwa [htime x hx, htime y hy, harrived x hx, harrived y hy]
    · intro x hx
      rw [htime x hx]
      exact h.valid x hx
    · rwa [htimeNew]
    · intro x hx
      rw [harrived x hx, harrivedNew]
      exact h.arrived x hx
  · intro x hx
    rcases List.mem_cons.mp (hperm.mem_iff.mp hx) with rfl | hx
    · rwa [htimeNew]
    · rw [htime x hx]
      exact h.valid x hx
  · intro x hx
    rcases List.mem_cons.mp (hperm.mem_iff.mp hx) with rfl | hx
    · rw [harrivedNew]
      exact Nat.lt_succ_self _
    · rw [harrived x hx]
      exact Nat.lt_succ_of_lt (h.arrived x hx)

theorem Ordered.removeMatching (h : Ordered s xs) (isMatch : Nat → Bool) (evalAll : Bool) :
    ∃ s' xs', (Call.removeMatching isMatch evalAll).perform s = some s' ∧ Ordered s' xs' := by
  cases evalAll with
  | true =>
    obtain ⟨m', l', heq, hlists, -⟩ :=
      ReceivedDataElementList.removeMatching_all isMatch h.lists h.nodup
    refine ⟨{ s with links := m', header := l' }, xs.filter fun x => !isMatch x, ?_, ?_⟩
    · simp only [Call.perform, heq, Option.map_some]
    · exact h.sublist List.filter_sublist hlists rfl rfl rfl
  | false =>
    obtain ⟨m', l', heq, hlists, -⟩ :=
      ReceivedDataElementList.removeMatching_first isMatch h.lists h.nodup
    refine ⟨{ s with links := m', header := l' }, xs.eraseP isMatch, ?_, ?_⟩
    · simp only [Call.perform, heq, Option.map_some]
    · exact h.sublist List.eraseP_sublist hlists rfl rfl rfl

theorem Ordered.perform (h : Ordered s xs) {call : Call} (hallowed : call.allowed s)
    (hvalid : call.valid) : ∃ s' xs', call.perform s = some s' ∧ Ordered s' xs' := by
  cases call with
  | add sample timestamp => exact h.add hallowed hvalid
  | remove sample => exact h.removeMatching (fun item => item = sample) false
  | removeMatching isMatch evalAll => exact h.removeMatching isMatch evalAll

theorem ordered_run {links : SampleLinks} {sourceTimestamp : Nat → Time_t} {calls : List Call}
    (run : Run (.empty links sourceTimestamp) trans calls s) (hvalid : ∀ call ∈ calls, call.valid) :
    ∃ xs, Ordered s xs := by
  induction run with
  | start => exact ⟨[], ⟨⟨rfl, rfl, rfl⟩, trivial, trivial⟩, .nil, .nil, by simp, by simp⟩
  | next before h ih =>
    rename_i calls s after call
    obtain ⟨xs, hordered⟩ := ih fun call hcall => hvalid call (List.mem_append_left _ hcall)
    obtain ⟨s', xs', heq, hafter⟩ := hordered.perform h.1 (hvalid call (by simp))
    obtain rfl := Option.some.inj (heq.symm.trans h.2)
    exact ⟨xs', hafter⟩

/-- After any valid calls the list is well formed and sorted, with the samples of one time in
the order of their arrival, and every further call has a result. -/
theorem source_ordered {links : SampleLinks} {sourceTimestamp : Nat → Time_t} {calls : List Call}
    (run : Run (.empty links sourceTimestamp) trans calls s) (hvalid : ∀ call ∈ calls, call.valid) :
    (∃ xs, Lists s.links s.header xs ∧ xs.Nodup ∧ xs.Pairwise (Precedes s)) ∧
      ∀ call : Call, call.allowed s → call.valid → ∃ s', call.perform s = some s' := by
  obtain ⟨xs, hordered⟩ := ordered_run run hvalid
  refine ⟨⟨xs, hordered.lists, hordered.nodup, hordered.sorted⟩, ?_⟩
  intro call hallowed hcall
  obtain ⟨s', -, heq, -⟩ := hordered.perform hallowed hcall
  exact ⟨s', heq⟩

def blank : Received := .empty ⟨fun _ => none, fun _ => none⟩ fun _ => ⟨0, 0⟩

/-- Two samples may arrive one after the other. -/
theorem run_two (first second : Time_t) {s s' : Received}
    (hfirst : (Call.add 1 first).perform blank = some s)
    (hsecond : (Call.add 2 second).perform s = some s') :
    Run blank trans [.add 1 first, .add 2 second] s' := by
  have hallowed : (Call.add 1 first).allowed blank := by
    rintro ⟨xs, r, -, hhead, hmem⟩
    rw [List.head?_eq_none_iff.mp hhead] at hmem
    cases hmem
  have hpath : Path s.links.nextDataSample [1] none ∧ s.header.head = some 1 := by
    obtain rfl := Option.some.inj hfirst
    exact ⟨⟨rfl, trivial⟩, rfl⟩
  have hallowed' : (Call.add 2 second).allowed s := by
    intro hreaches
    rw [hpath.2] at hreaches
    exact absurd ((reaches_iff hpath.1).mp hreaches) (by decide)
  exact (Run.start.next ⟨hallowed, hfirst⟩).next ⟨hallowed', hsecond⟩

theorem source_ordered_two : ∃ s, Run blank trans
    [.add 1 ⟨5#32, 0#32⟩, .add 2 ⟨3#32, 999999999#32⟩] s ∧
      walk s.links.nextDataSample 2 s.header.head = some [2, 1] ∧
      ∃ xs, Lists s.links s.header xs ∧ xs.Nodup ∧ xs.Pairwise (Precedes s) := by
  have run := run_two ⟨5#32, 0#32⟩ ⟨3#32, 999999999#32⟩ rfl rfl
  refine ⟨_, run, by decide, (source_ordered run ?_).1⟩
  intro call hcall
  rcases List.mem_cons.mp hcall with rfl | hcall
  · exact ⟨by decide, by decide⟩
  · rw [List.mem_singleton.mp hcall]
    exact ⟨by decide, by decide⟩

/-- A sample of the last second before the epoch is put behind one of the epoch. -/
theorem before_epoch_unsorted : ∃ s, Run blank trans
    [.add 1 ⟨0#32, 0#32⟩, .add 2 ⟨0xffffffff#32, 0#32⟩] s ∧
      walk s.links.nextDataSample 2 s.header.head = some [1, 2] ∧
      nanos (s.sourceTimestamp 2) = -1000000000 ∧ nanos (s.sourceTimestamp 1) = 0 ∧
      ¬ ∃ xs, Lists s.links s.header xs ∧ xs.Nodup ∧ xs.Pairwise (Precedes s) := by
  refine ⟨_, run_two ⟨0#32, 0#32⟩ ⟨0xffffffff#32, 0#32⟩ rfl rfl,
    by decide, by decide, by decide, ?_⟩
  rintro ⟨xs, hlists, -, hsorted⟩
  have hlength : xs.length = 2 := by
    have hsize : (2 : Int) = xs.length := hlists.size
    omega
  have hwalk := walk_path hlists.forward (Nat.le_of_eq hlength)
  rw [← hlists.head] at hwalk
  obtain rfl : [1, 2] = xs := Option.some.inj hwalk
  have hprecedes := (List.pairwise_cons.mp hsorted).1 2 (by simp)
  rcases hprecedes with hlt | ⟨hsame, -⟩
  · revert hlt
    decide
  · revert hsame
    decide

end OpenDDS.Guarantees.SourceOrder
