import Mathlib.Data.List.Perm.Basic
import OpenDDS.Library.Run
import OpenDDS.Source.TransportSendBuffer

/-!
What a `SingleSendBuffer` keeps over runs of calls with non-decreasing sequence numbers: never
more numbers than its capacity, an entry in `fragments_` for exactly the numbers whose entry in
`buffers_` is null, and the highest numbers inserted.

`Undisturbed` leaves out the calls after which this fails. `check_capacity` does not know whether
the number is new, so a further fragment evicts when the buffer is full; `insert` does not look for
fragments of its number; and `retain_all` releases what it cannot retain, a fragment through an
iterator of the wrong map.
-/
namespace OpenDDS.Guarantees.BufferEviction
open Library Source Source.SingleSendBuffer

variable {PDU : Type}

inductive Call (PDU : Type) where
  | insert (sequence : Int) (pdu : PDU)
  | insertFragment (sequence fragment : Int) (pdu : PDU)
  | retainAll (retain_buffer : Int → Option Int → PDU → Option PDU)
  | releaseAll

def step (b : SingleSendBuffer PDU) : Call PDU → Except Fault (SingleSendBuffer PDU)
  | .insert sequence pdu => .ok (b.insert sequence pdu)
  | .insertFragment sequence fragment pdu => .ok (b.insert_fragment sequence fragment pdu)
  | .retainAll retain_buffer => b.retain_all retain_buffer
  | .releaseAll => .ok b.release_all

def Call.sequence : Call PDU → Option Int
  | .insert sequence _ => some sequence
  | .insertFragment sequence _ _ => some sequence
  | .retainAll _ => none
  | .releaseAll => none

def inserted (calls : List (Call PDU)) : List Int := calls.filterMap Call.sequence

def Undisturbed (b : SingleSendBuffer PDU) : Call PDU → Prop
  | .insert sequence _ => b.buffers_.find sequence = some none →
      b.buffers_.size = b.capacity_ ∧ b.buffers_.keys.head? = some sequence
  | .insertFragment sequence _ _ => b.buffers_.find sequence = some none →
      b.buffers_.size ≠ b.capacity_
  | .retainAll retain_buffer =>
      (∀ k buffers fragment pdu, b.fragmentsOf k = some buffers →
        (fragment, pdu) ∈ buffers.entries → retain_buffer k (some fragment) pdu ≠ none) ∧
      ∀ k pdu, b.buffers_.find k = some (some pdu) → retain_buffer k none pdu = none →
        ∀ m ∈ b.buffers_.keys, m ≤ k →
          ∃ other, b.buffers_.find m = some (some other) ∧ retain_buffer m none other = none
  | .releaseAll => True

def trans (b : SingleSendBuffer PDU) (call : Call PDU) (after : SingleSendBuffer PDU) : Prop :=
  Undisturbed b call ∧ step b call = .ok after

/-- The null entries of `buffers_` are those with fragments. -/
structure Linked (b : SingleSendBuffer PDU) : Prop where
  stored : ∀ k, b.buffers_.find k = some none → ∃ buffers, b.fragmentsOf k = some buffers
  entered : ∀ k buffers, b.fragmentsOf k = some buffers →
    b.buffers_.find k = some none ∧ buffers.entries ≠ []

/-- The numbers that are buffered are the highest ones inserted. -/
structure Highest (b : SingleSendBuffer PDU) (numbers : List Int) : Prop where
  among : ∀ k ∈ b.buffers_.keys, k ∈ numbers
  above : ∀ k ∈ b.buffers_.keys, ∀ m ∈ numbers, k ≤ m → m ∈ b.buffers_.keys

structure Represented (capacity : Nat) (b : SingleSendBuffer PDU) (numbers : List Int) : Prop where
  atMost : b.buffers_.size ≤ capacity
  linked : Linked b
  highest : Highest b numbers

/-- A further fragment leaves everything else where it is. -/
def EvictsNothing (b : SingleSendBuffer PDU) (sequence fragment : Int) (pdu : PDU) : Prop :=
  (∀ k, (b.insert_fragment sequence fragment pdu).buffers_.find k = b.buffers_.find k) ∧
    ∀ k f, (k, f) ≠ (sequence, fragment) →
      ((b.insert_fragment sequence fragment pdu).fragmentsOf k).bind (SortedMap.find · f) =
        (b.fragmentsOf k).bind (SortedMap.find · f)

variable {capacity : Nat} {call : Call PDU}

section

variable {b after : SingleSendBuffer PDU} {numbers : List Int} {k : Int}

theorem Linked.congr (hl : Linked b) (hfind : ∀ k, after.buffers_.find k = some none ↔
      b.buffers_.find k = some none)
    (hkeys : ∀ k, (after.fragmentsOf k).map SortedMap.keys = (b.fragmentsOf k).map SortedMap.keys) :
    Linked after := by
  constructor
  · intro k hk
    obtain ⟨buffers, hbuffers⟩ := hl.stored k ((hfind k).mp hk)
    have hsome := hkeys k
    rw [hbuffers, Option.map_some] at hsome
    obtain ⟨buffers', hbuffers', -⟩ := Option.map_eq_some_iff.mp hsome
    exact ⟨buffers', hbuffers'⟩
  · intro k buffers' hbuffers'
    have hsome := hkeys k
    rw [hbuffers', Option.map_some] at hsome
    obtain ⟨buffers, hbuffers, hsame⟩ := Option.map_eq_some_iff.mp hsome.symm
    obtain ⟨hnull, hne⟩ := hl.entered k buffers hbuffers
    refine ⟨(hfind k).mpr hnull, fun hnil => hne ?_⟩
    have hlength : buffers.keys.length = buffers'.keys.length := by rw [hsame]
    simpa [SortedMap.keys, hnil] using hlength

theorem Linked.release (hl : Linked b) {it : Int × Option PDU}
    (hit : b.buffers_.find it.1 = some it.2) : Linked (b.release it) := by
  have hgone : ∀ k, k = it.1 → (b.release it).fragmentsOf k = none := by
    rintro k rfl
    by_cases heq : it = (it.1, none)
    · rw [heq]
      exact release_fragmentsOf_self b it.1
    · rw [release_fragmentsOf_of_ne heq]
      cases hbuffers : b.fragmentsOf it.1 with
      | none => rfl
      | some buffers =>
        have hnull := (hl.entered _ _ hbuffers).1
        rw [hit, Option.some.injEq] at hnull
        have hsame : it = (it.1, none) := Prod.ext rfl hnull
        exact absurd hsame heq
  have hkept : ∀ k, k ≠ it.1 → (b.release it).fragmentsOf k = b.fragmentsOf k := fun k hk =>
    release_fragmentsOf_of_ne fun heq => hk (by rw [heq])
  constructor
  · intro k hk
    rw [release_buffers, SortedMap.find_erase] at hk
    split_ifs at hk with hne
    rw [hkept k hne]
    exact hl.stored k hk
  · intro k buffers hbuffers
    by_cases hk : k = it.1
    · rw [hgone k hk] at hbuffers
      cases hbuffers
    · rw [hkept k hk] at hbuffers
      rw [release_buffers, SortedMap.find_erase, if_neg hk]
      exact hl.entered k buffers hbuffers

theorem Linked.checkCapacity (hl : Linked b) : Linked b.check_capacity := by
  rcases check_capacity_cases b with ⟨heq, -⟩ | ⟨it, rest, -, hcons, heq⟩
  · rwa [heq]
  · rw [heq]
    exact hl.release (SortedMap.find_eq_some.mpr (by simp [hcons]))

theorem Highest.checkCapacity (hh : Highest b numbers) : Highest b.check_capacity numbers := by
  rcases check_capacity_cases b with ⟨heq, -⟩ | ⟨it, rest, -, hcons, heq⟩
  · rwa [heq]
  · rw [heq]
    have hlowest : ∀ k ∈ b.buffers_.keys, it.1 ≤ k := by
      have hsorted := b.buffers_.keys_sorted
      simp only [SortedMap.keys, hcons, List.map_cons, List.pairwise_cons] at hsorted ⊢
      intro k hk
      rcases List.mem_cons.mp hk with rfl | hrest
      · exact le_rfl
      · exact (hsorted.1 k hrest).le
    constructor
    · intro k hk
      rw [release_buffers, SortedMap.mem_keys_erase] at hk
      exact hh.among k hk.2
    · intro k hk m hm hle
      rw [release_buffers, SortedMap.mem_keys_erase] at hk ⊢
      have hk' := hlowest k hk.2
      exact ⟨by omega, hh.above k hk.2 m hm hle⟩

theorem Highest.enter {sequence : Int} {buffer : Option PDU} (hh : Highest b numbers)
    (hlast : ∀ m ∈ numbers, m ≤ sequence)
    (hafter : after.buffers_ = b.buffers_.put sequence buffer) :
    Highest after (numbers ++ [sequence]) := by
  constructor
  · intro k hk
    rw [hafter, SortedMap.mem_keys_put] at hk
    rcases hk with rfl | hk
    · simp
    · exact List.mem_append_left _ (hh.among k hk)
  · intro k hk m hm hle
    rw [hafter, SortedMap.mem_keys_put] at hk ⊢
    rcases List.mem_append.mp hm with hold | hnew
    · rcases hk with heq | hk
      · have := hlast m hold
        omega
      · exact .inr (hh.above k hk m hold hle)
    · exact .inl (by simpa using hnew)

section

variable (hr : Represented capacity b numbers)
include hr

theorem Represented.insert {sequence : Int} {pdu : PDU} (hcapacity : b.capacity_ = capacity)
    (hpos : 1 ≤ capacity) (hlast : ∀ m ∈ numbers, m ≤ sequence)
    (hcall : Undisturbed b (.insert sequence pdu)) :
    Represented capacity (b.insert sequence pdu) (numbers ++ [sequence]) := by
  subst hcapacity
  have hwhole : b.check_capacity.buffers_.find sequence ≠ some none := by
    rcases check_capacity_cases b with ⟨heq, hempty⟩ | ⟨it, rest, -, hcons, heq⟩
    · rw [heq]
      intro hnull
      obtain ⟨hfull, hhead⟩ := hcall hnull
      simp [SortedMap.keys, hempty hfull] at hhead
    · rw [heq, release_buffers, SortedMap.find_erase]
      split_ifs with hit
      · simp
      · intro hnull
        have hhead := (hcall hnull).2
        simp only [SortedMap.keys, hcons, List.map_cons, List.head?_cons, Option.some.injEq] at hhead
        exact hit hhead.symm
  have hc := hr.linked.checkCapacity
  refine ⟨?_, ⟨?_, ?_⟩, hr.highest.checkCapacity.enter hlast rfl⟩
  · have hroom := check_capacity_size hpos hr.atMost
    have hput := SortedMap.size_put_le b.check_capacity.buffers_ sequence (some pdu)
    exact hput.trans hroom
  · intro k hk
    rw [SingleSendBuffer.insert, SortedMap.find_put] at hk
    split_ifs at hk with hne
    · cases hk
    · exact hc.stored k hk
  · intro k buffers hbuffers
    have hentered := hc.entered k buffers hbuffers
    have hne : k ≠ sequence := by
      rintro rfl
      exact hwhole hentered.1
    rw [SingleSendBuffer.insert, SortedMap.find_put, if_neg hne]
    exact hentered

theorem Represented.insertFragment {sequence fragment : Int} {pdu : PDU}
    (hcapacity : b.capacity_ = capacity) (hpos : 1 ≤ capacity) (hlast : ∀ m ∈ numbers, m ≤ sequence) :
    Represented capacity (b.insert_fragment sequence fragment pdu) (numbers ++ [sequence]) := by
  subst hcapacity
  have hc := hr.linked.checkCapacity
  have hfind : ∀ k, (b.insert_fragment sequence fragment pdu).buffers_.find k =
      if k = sequence then some none else b.check_capacity.buffers_.find k :=
    fun k => SortedMap.find_put _ _ _ _
  refine ⟨?_, ⟨?_, ?_⟩, hr.highest.checkCapacity.enter hlast rfl⟩
  · have hroom := check_capacity_size hpos hr.atMost
    have hput := SortedMap.size_put_le b.check_capacity.buffers_ sequence none
    exact hput.trans hroom
  · intro k hk
    by_cases hne : k = sequence
    · subst hne
      exact ⟨_, insert_fragmentsOf_self b k fragment pdu⟩
    · rw [hfind, if_neg hne] at hk
      rw [insert_fragmentsOf_of_ne hne]
      exact hc.stored k hk
  · intro k buffers hbuffers
    by_cases hne : k = sequence
    · subst hne
      rw [insert_fragmentsOf_self, Option.some.injEq] at hbuffers
      refine ⟨by rw [hfind, if_pos rfl], fun hnil => ?_⟩
      have hmem : fragment ∈ buffers.keys := by
        rw [← hbuffers, SortedMap.mem_keys_put]
        exact .inl rfl
      simp [SortedMap.keys, hnil] at hmem
    · rw [insert_fragmentsOf_of_ne hne] at hbuffers
      rw [hfind, if_neg hne]
      exact hc.entered k buffers hbuffers

theorem Represented.releaseAll : Represented capacity b.release_all numbers := by
  obtain ⟨-, hbuffers, hfragments⟩ := releases_effects b.buffers_.entries b
  have hfind : ∀ k, b.release_all.buffers_.find k = none := by
    intro k
    rw [release_all, hbuffers]
    split_ifs with hk
    · rfl
    · exact SortedMap.find_eq_none.mpr hk
  have hkeys : ∀ k, k ∉ b.release_all.buffers_.keys := fun k => SortedMap.find_eq_none.mp (hfind k)
  refine ⟨?_, ⟨?_, ?_⟩, ⟨?_, ?_⟩⟩
  · rw [SortedMap.size_eq_length_keys, List.eq_nil_iff_forall_not_mem.mpr hkeys]
    exact Nat.zero_le _
  · intro k hk
    rw [hfind] at hk
    cases hk
  · intro k buffers hk
    rcases hfragments k with hnone | ⟨hmem, hsame⟩
    · rw [release_all, hnone] at hk
      cases hk
    · rw [release_all, hsame] at hk
      exact absurd (SortedMap.find_eq_some.mp (hr.linked.entered k buffers hk).1) hmem
  · exact fun k hk => absurd hk (hkeys k)
  · exact fun k hk => absurd hk (hkeys k)

theorem Represented.retainAll {retain_buffer : Int → Option Int → PDU → Option PDU}
    (hcall : Undisturbed b (.retainAll retain_buffer)) (h : b.retain_all retain_buffer = .ok after) :
    Represented capacity after numbers := by
  obtain ⟨-, hfragments, hfind⟩ := retain_all_effects h
  have hnull : ∀ k, after.buffers_.find k = some none ↔ b.buffers_.find k = some none := by
    intro k
    rw [hfind, keptBuffer_eq_some_none]
  have hsub : ∀ k ∈ after.buffers_.keys, k ∈ b.buffers_.keys := by
    intro k hk
    rw [SortedMap.mem_keys_iff_ne_none] at hk ⊢
    intro hnone
    rw [hfind, hnone] at hk
    exact hk rfl
  refine ⟨?_, hr.linked.congr hnull hfragments, ⟨?_, ?_⟩⟩
  · have hle : after.buffers_.keys.length ≤ b.buffers_.keys.length :=
      (List.subperm_of_subset (after.buffers_.keys_sorted.imp ne_of_lt) hsub).length_le
    rw [← SortedMap.size_eq_length_keys, ← SortedMap.size_eq_length_keys] at hle
    exact hle.trans hr.atMost
  · exact fun k hk => hr.highest.among k (hsub k hk)
  · intro k hk m hm hle
    have hmem := hr.highest.above k (hsub k hk) m hm hle
    -- A number that is released takes all lower ones with it.
    by_contra hgone
    rw [← SortedMap.find_eq_none, hfind] at hgone
    obtain ⟨buffer, hbuffer⟩ := SortedMap.mem_keys.mp hmem
    rw [hbuffer] at hgone
    cases buffer with
    | none => cases hgone
    | some pdu =>
      have hfail : retain_buffer m none pdu = none := by simpa [keptBuffer] using hgone
      obtain ⟨other, hother, hfail'⟩ := hcall.2 m pdu hbuffer hfail k (hsub k hk) hle
      rw [SortedMap.mem_keys_iff_ne_none, hfind, hother] at hk
      exact hk (by simp [keptBuffer, hfail'])

end

theorem capacity_kept (h : step b call = .ok after) : after.capacity_ = b.capacity_ := by
  cases call with
  | insert sequence pdu =>
    cases h
    exact check_capacity_capacity b
  | insertFragment sequence fragment pdu =>
    cases h
    exact check_capacity_capacity b
  | retainAll retain_buffer => exact (retain_all_effects h).1
  | releaseAll =>
    cases h
    exact (releases_effects b.buffers_.entries b).1

theorem evictsNothing {sequence fragment : Int} {pdu : PDU}
    (hfragmented : b.buffers_.find sequence = some none) (hroom : b.buffers_.size ≠ b.capacity_) :
    EvictsNothing b sequence fragment pdu := by
  have hsame : b.check_capacity = b := if_neg hroom
  constructor
  · intro k
    rw [insert_fragment, SortedMap.find_put, hsame]
    split_ifs with hk
    · rw [hk, hfragmented]
    · rfl
  · intro k f hne
    by_cases hk : k = sequence
    · subst hk
      have hf : f ≠ fragment := fun hf => hne (by rw [hf])
      rw [insert_fragmentsOf_self, hsame, Option.bind_some, SortedMap.find_put, if_neg hf]
      cases b.fragmentsOf k <;> rfl
    · rw [insert_fragmentsOf_of_ne hk, hsame]

/-- A call that is not disturbed returns. -/
theorem step_ok (hl : Linked b) (hcall : Undisturbed b call) :
    ∃ after, step b call = .ok after := by
  cases call with
  | insert sequence pdu => exact ⟨_, rfl⟩
  | insertFragment sequence fragment pdu => exact ⟨_, rfl⟩
  | retainAll retain_buffer =>
    exact retainLoop_ok (fun k hk => hl.stored k (SortedMap.find_eq_some.mpr hk))
      (fun k buffers fragment pdu _ => hcall.1 k buffers fragment pdu) b.buffers_.sorted
  | releaseAll => exact ⟨_, rfl⟩

theorem Represented.step {calls : List (Call PDU)} (hr : Represented capacity b (inserted calls))
    (hcapacity : b.capacity_ = capacity) (hpos : 1 ≤ capacity)
    (hmono : (inserted (calls ++ [call])).Pairwise (· ≤ ·)) (hcall : Undisturbed b call)
    (h : step b call = .ok after) : Represented capacity after (inserted (calls ++ [call])) := by
  have hsplit : inserted (calls ++ [call]) = inserted calls ++ inserted [call] :=
    List.filterMap_append
  have hlast : ∀ sequence, inserted [call] = [sequence] → ∀ m ∈ inserted calls, m ≤ sequence := by
    intro sequence heq m hm
    rw [hsplit, heq] at hmono
    exact (List.pairwise_append.mp hmono).2.2 m hm sequence (by simp)
  rw [hsplit]
  cases call with
  | insert sequence pdu =>
    cases h
    exact hr.insert hcapacity hpos (hlast sequence rfl) hcall
  | insertFragment sequence fragment pdu =>
    cases h
    exact hr.insertFragment hcapacity hpos (hlast sequence rfl)
  | retainAll retain_buffer =>
    rw [show inserted [Call.retainAll retain_buffer] = [] from rfl, List.append_nil]
    exact hr.retainAll hcall h
  | releaseAll =>
    cases h
    rw [show inserted [(Call.releaseAll : Call PDU)] = [] from rfl, List.append_nil]
    exact hr.releaseAll

end

/-- After every run of undisturbed calls the buffer holds at most `capacity` numbers, the highest
ones inserted, and its null entries are those with fragments; every undisturbed call returns, and
a further fragment of a buffered number evicts nothing. -/
theorem buffer_represented (capacity : Nat) (hpos : 1 ≤ capacity) (calls : List (Call PDU))
    (b : SingleSendBuffer PDU) (run : Run (construct capacity) trans calls b)
    (hmono : (inserted calls).Pairwise (· ≤ ·)) :
    Represented capacity b (inserted calls) ∧
      (∀ call, Undisturbed b call → ∃ after, step b call = .ok after) ∧
      ∀ sequence fragment pdu, b.buffers_.find sequence = some none →
        Undisturbed b (.insertFragment sequence fragment pdu) →
        EvictsNothing b sequence fragment pdu := by
  have hinv : b.capacity_ = capacity ∧
      ((inserted calls).Pairwise (· ≤ ·) → Represented capacity b (inserted calls)) := by
    refine run.history (fun calls b => b.capacity_ = capacity ∧
      ((inserted calls).Pairwise (· ≤ ·) → Represented capacity b (inserted calls))) ?_ ?_
    · refine ⟨rfl, fun _ => ⟨Nat.zero_le _, ⟨?_, ?_⟩, ⟨?_, ?_⟩⟩⟩
      · intro k hk
        cases hk
      · intro k buffers hk
        cases hk
      · intro k hk
        cases hk
      · intro k hk
        cases hk
    · rintro calls b call after ⟨hcapacity, hr⟩ ⟨hcall, h⟩
      refine ⟨(capacity_kept h).trans hcapacity, fun hmono => ?_⟩
      have hbefore : (inserted calls).Pairwise (· ≤ ·) := by
        rw [inserted, List.filterMap_append] at hmono
        exact (List.pairwise_append.mp hmono).1
      exact (hr hbefore).step hcapacity hpos hmono hcall h
  have hr := hinv.2 hmono
  exact ⟨hr, fun call hcall => step_ok hr.linked hcall, fun sequence fragment pdu hnull hcall =>
    evictsNothing hnull (hcall hnull)⟩

def fragmentsThenWhole : List (Call Nat) :=
  [.insertFragment 1 1 10, .insertFragment 1 2 11, .insert 2 12]

theorem buffer_represented_fragments : ∃ b, Run (construct 2) trans fragmentsThenWhole b ∧
    Represented 2 b (inserted fragmentsThenWhole) := by
  have hfirst : Run (construct 2) trans ([] ++ [Call.insertFragment 1 1 10])
      ((construct 2).insert_fragment 1 1 10) :=
    Run.start.next ⟨fun h => absurd h (by decide), rfl⟩
  have hsecond : Run (construct 2) trans ([Call.insertFragment 1 1 10] ++
      [Call.insertFragment 1 2 11]) (((construct 2).insert_fragment 1 1 10).insert_fragment 1 2 11) :=
    hfirst.next ⟨fun _ => by decide, rfl⟩
  have hrun : Run (construct 2) trans ([Call.insertFragment 1 1 10, Call.insertFragment 1 2 11] ++
      [Call.insert 2 12])
      ((((construct 2).insert_fragment 1 1 10).insert_fragment 1 2 11).insert 2 12) :=
    hsecond.next ⟨fun h => absurd h (by decide), rfl⟩
  exact ⟨_, hrun, (buffer_represented 2 (by decide) _ _ hrun (by decide)).1⟩

/-- A second fragment of the only number in a buffer of capacity one takes out the first. -/
theorem buffer_evicts_fragment :
    ¬ ∀ (capacity : Nat) (_ : 1 ≤ capacity) (calls : List (Call Nat)) (b : SingleSendBuffer Nat)
      (_ : Run (construct capacity) (fun b call after => step b call = .ok after) calls b)
      (_ : (inserted calls).Pairwise (· ≤ ·)),
      Represented capacity b (inserted calls) ∧
        ∀ sequence fragment pdu, b.buffers_.find sequence = some none →
          EvictsNothing b sequence fragment pdu := by
  intro hall
  have hrun : Run (construct 1) (fun b call after => step b call = .ok after)
      ([] ++ [Call.insertFragment 1 1 10]) ((construct 1).insert_fragment 1 1 10) :=
    Run.start.next rfl
  have hevicts := (hall 1 (by decide) _ _ hrun (by decide)).2 1 2 11 (by decide)
  exact absurd (hevicts.2 1 1 (by decide)) (by decide)

end OpenDDS.Guarantees.BufferEviction
