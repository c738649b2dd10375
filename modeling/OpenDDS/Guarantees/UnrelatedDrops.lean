import OpenDDS.Guarantees.WholeSamples

/-!
# Dropped ranges of other samples

`data_unavailable` looks at each sample that is not whole yet. A range without a number of the
sample leaves it alone, with two exceptions: one that starts right behind the last fragment is
taken for a part of the sample, as nothing says that the last element is its end, and one whose
end lies before its start, as `UdpReceiveStrategy` makes it for a packet that comes late, may
fit anywhere.
-/
namespace OpenDDS.Guarantees.UnrelatedDrops

open Library Source Source.DataSampleHeader Source.TransportReassembly FragmentReassembly WholeSamples

section

variable {host : ByteOrder} {key : FragKey} {a b first second : Int} {frags arrived : List Fragment}
  {r : Reassembly} {flist : List FragRange}

/-- One of the three conditions of the loop body of `data_unavailable`. -/
def Reaches (first second : Int) (haveFirst : Bool) (flist : List FragRange) : Prop :=
  (∃ front ∈ flist.head?, second = front.first - 1 ∧ haveFirst = false) ∨
    fitsGap first second flist = true ∨ followsBack first flist = true

theorem dropFrom_of_not_reaches {haveFirst : Bool} (h : ¬ Reaches first second haveFirst flist) :
    dropFrom host first second key haveFirst flist = (false, flist) := by
  obtain ⟨hfront, hrest⟩ := not_or.mp h
  obtain ⟨hgap, hback⟩ := not_or.mp hrest
  cases flist with
  | nil => rfl
  | cons front rest =>
    have hnot : ¬ (second = front.first - 1 ∧ haveFirst = false) := fun hboth =>
      hfront ⟨front, rfl, hboth⟩
    simp only [dropFrom, if_neg hnot, if_neg hgap, if_neg hback]

/-- The dropped range does not touch what is kept of the sample. -/
structure Clear (key : FragKey) (b : Int) (arrived : List Fragment) (r : Reassembly)
    (first second : Int) : Prop where
  behind : first ≤ second → first = SequenceNumber.next b → ∀ f ∈ arrived, f.second ≠ b
  backward : second < first → ∀ flist, r.fragments.lookup key = some flist →
    ¬ Reaches first second (decide (key ∈ r.haveFirst)) flist

theorem fitsGap_eq_true (h : fitsGap first second flist = true) :
    ∃ fr ∈ flist, ∃ fr' ∈ flist, fr.second < first ∧ second < fr'.first := by
  induction flist using fitsGap.induct with
  | case1 fr fr' rest ih =>
    rw [fitsGap, Bool.or_eq_true, Bool.and_eq_true, decide_eq_true_eq, decide_eq_true_eq] at h
    obtain hhere | hlater := h
    · exact ⟨fr, by simp, fr', by simp, hhere⟩
    · obtain ⟨x, hx, y, hy, hboth⟩ := ih hlater
      exact ⟨x, List.mem_cons_of_mem _ hx, y, List.mem_cons_of_mem _ hy, hboth⟩
  | case2 flist hnot =>
    rw [fitsGap] at h
    · cases h
    · exact hnot

theorem not_reaches (hsplit : Split key a b frags) (hlarge : b < SequenceNumber.maxValue)
    (hpending : Pending key a b arrived r) (hsub : ∀ f ∈ arrived, f ∈ frags)
    (hlookup : r.fragments.lookup key = some flist) (hle : first ≤ second)
    (hother : ∀ n, first ≤ n → n ≤ second → ¬ (a ≤ n ∧ n ≤ b))
    (hbehind : first = SequenceNumber.next b → ∀ f ∈ arrived, f.second ≠ b) :
    ¬ Reaches first second (decide (key ∈ r.haveFirst)) flist := by
  have hnew : arrived ≠ [] := by
    intro hnil
    rw [hpending.absent hnil] at hlookup
    cases hlookup
  obtain ⟨flist', groups, hlookup', hkept, harrived⟩ := hpending.kept hnew
  rw [hlookup] at hlookup'
  cases hlookup'
  have hbounds : ∀ fr ∈ flist, a ≤ fr.first ∧ fr.first ≤ fr.second ∧ fr.second ≤ b := by
    intro fr hfr
    obtain ⟨g, -, hjoined⟩ := hkept.of_mem hfr
    exact ⟨hjoined.low, hjoined.range⟩
  -- A number at the end of an element belongs to a fragment that ends there.
  have hmember : ∀ fr ∈ flist, ∀ n, fr.first ≤ n → n ≤ fr.second →
      ∃ f ∈ arrived, f.first ≤ n ∧ n ≤ f.second := by
    intro fr hfr n hfirst hsecond
    obtain ⟨g, hg, hjoined⟩ := hkept.of_mem hfr
    obtain ⟨f, hf, hin⟩ := hjoined.covers n hfirst hsecond
    exact ⟨f, harrived.mem_iff.mp (List.mem_flatten.mpr ⟨g, hg, hf⟩), hin⟩
  rintro (⟨front, hfront, hsecond, hnot⟩ | hgap | hback)
  · have hmem : front ∈ flist := List.mem_of_mem_head? hfront
    have hrange := hbounds front hmem
    apply hother second hle (le_refl _)
    have hfirst : front.first ≠ a := by
      intro heq
      obtain ⟨f, hf, hin⟩ := hmember front hmem front.first (le_refl _) hrange.2.1
      have hbound := hsplit.covering.bounds f (hsub f hf)
      have hflag := hsplit.first f (hsub f hf)
      have hfa : f.first = a := by omega
      rw [hfa, decide_eq_true rfl] at hflag
      exact of_decide_eq_false hnot (hpending.first.mpr ⟨f, hf, hflag⟩)
    omega
  · obtain ⟨fr, hfr, fr', hfr', hlow, hhigh⟩ := fitsGap_eq_true hgap
    have hrange := hbounds fr hfr
    have hrange' := hbounds fr' hfr'
    apply hother first (le_refl _) hle
    omega
  · unfold followsBack at hback
    cases hlast : flist.getLast? with
    | none =>
      rw [hlast] at hback
      cases hback
    | some back =>
      rw [hlast] at hback
      have hnext : first = SequenceNumber.next back.second := by simpa using hback
      have hmem := List.mem_of_getLast? hlast
      have hrange := hbounds back hmem
      by_cases hend : back.second = b
      · obtain ⟨f, hf, hin⟩ := hmember back hmem b (by omega) (by omega)
        have hbound := hsplit.covering.bounds f (hsub f hf)
        exact hbehind (hend ▸ hnext) f hf (by omega)
      · rw [SequenceNumber.next_of_lt (by omega)] at hnext
        apply hother first (le_refl _) hle
        omega

end

section

variable {host : ByteOrder} {key : FragKey} {a b : Int} {frags arrived : List Fragment}
  {r r' : Reassembly} {f : Fragment}

/-- Both know the same of the sample. -/
def Same (key : FragKey) (r r' : Reassembly) : Prop :=
  r.fragments.lookup key = r'.fragments.lookup key ∧ (key ∈ r.haveFirst ↔ key ∈ r'.haveFirst)

theorem Same.pending (h : Same key r r') (hpending : Pending key a b arrived r') :
    Pending key a b arrived r := by
  refine ⟨?_, ?_, h.2.trans hpending.first⟩
  · rw [h.1]
    exact hpending.absent
  · rw [h.1]
    exact hpending.kept

theorem Same.firstAfter (h : Same f.data.key r r') :
    f.data.key ∈ firstAfter r f ↔ f.data.key ∈ firstAfter r' f := by
  rw [mem_firstAfter, mem_firstAfter, h.2]

theorem Same.arrive (h : Same f.data.key r r') :
    (arrive r f).1 = (arrive r' f).1 ∧ Same f.data.key (arrive r f).2 (arrive r' f).2 := by
  have hfirst := h.firstAfter
  unfold Same
  cases hlookup' : r'.fragments.lookup f.data.key with
  | none =>
    obtain ⟨hnone, hhave, hnew⟩ := arrive_new (h.1.trans hlookup')
    obtain ⟨hnone', hhave', hnew'⟩ := arrive_new hlookup'
    rw [hnone, hhave, hnew, hnone', hhave', hnew']
    exact ⟨rfl, rfl, hfirst⟩
  | some flist =>
    have hends : ∀ front, Ends r f flist front ↔ Ends r' f flist front := fun front =>
      and_congr Iff.rfl (and_congr hfirst Iff.rfl)
    obtain ⟨hnot, hnone, hhave, hstored⟩ | ⟨front, hend, hresult, hgone, hout⟩ :=
      arrive_same (h.1.trans hlookup') <;>
    obtain ⟨hnot', hnone', hhave', hstored'⟩ | ⟨front', hend', hresult', hgone', hout'⟩ :=
      arrive_same hlookup'
    · rw [hnone, hhave, hstored, hnone', hhave', hstored']
      exact ⟨rfl, rfl, hfirst⟩
    · exact absurd ((hends front').mpr hend') (hnot front')
    · exact absurd ((hends front).mp hend) (hnot' front)
    · have heq := hend.1.symm.trans hend'.1
      cases heq
      rw [hresult, hgone, hresult', hgone']
      exact ⟨rfl, rfl, iff_of_false hout hout'⟩

/-- The arguments of `reassemble`, with the other calls left out. -/
def arrivals (calls : List Call) : List Fragment :=
  calls.filterMap fun call => match call with
    | .reassemble f => some f
    | _ => none

def afterCalls (host : ByteOrder) (calls : List Call) : Reassembly :=
  calls.foldl (perform host) ⟨[], []⟩

theorem afterCalls_concat (calls : List Call) (call : Call) :
    afterCalls host (calls ++ [call]) = perform host (afterCalls host calls) call :=
  List.foldl_concat _ _ _ _

theorem afterCalls_distinct (calls : List Call) : Distinct (afterCalls host calls) := by
  induction calls using List.reverseRecOn with
  | nil => exact List.nodup_nil
  | append_singleton calls call ih =>
    rw [afterCalls_concat]
    cases call with
    | reassemble f => exact ih.reassembleI _ _ _ _
    | dataUnavailable first second => exact ih.dataUnavailable host first second
    | dataUnavailableSample key => exact ih.erase _

/-- Each dropped range is clear of the sample when it is dropped, and the sample is not given up. -/
structure AllClear (host : ByteOrder) (key : FragKey) (b : Int) (calls : List Call) : Prop where
  clear : ∀ before first second after, calls = before ++ .dataUnavailable first second :: after →
    Clear key b (callsFor key (arrivals before)) (afterCalls host before) first second
  kept : .dataUnavailableSample key ∉ calls

theorem AllClear.init {calls : List Call} {call : Call} (h : AllClear host key b (calls ++ [call])) :
    AllClear host key b calls := by
  refine ⟨fun before first second after heq => ?_, fun hmem => h.kept (List.mem_append_left _ hmem)⟩
  exact h.clear before first second (after ++ [call]) (by rw [heq, List.append_assoc]; rfl)

theorem same_afterCalls (hsplit : Split key a b frags) (hwhole : Whole frags)
    (hlarge : b < SequenceNumber.maxValue) {calls : List Call} {missing : List Fragment}
    (hmissing : missing ≠ []) (hperm : (callsFor key (arrivals calls) ++ missing).Perm frags)
    (hother : ∀ first second, .dataUnavailable first second ∈ calls →
      ∀ n, first ≤ n → n ≤ second → ¬ (a ≤ n ∧ n ≤ b))
    (hclear : AllClear host key b calls) :
    Same key (afterCalls host calls) (afterAll ⟨[], []⟩ (arrivals calls)) := by
  induction calls using List.reverseRecOn generalizing missing with
  | nil => exact ⟨rfl, Iff.rfl⟩
  | append_singleton calls call ih =>
    have hother' := fun first second hmem => hother first second (List.mem_append_left _ hmem)
    rw [afterCalls_concat]
    cases call with
    | reassemble f =>
      have harrivals : arrivals (calls ++ [.reassemble f]) = arrivals calls ++ [f] := by simp [arrivals]
      rw [harrivals] at hperm ⊢
      have hstate : afterAll ⟨[], []⟩ (arrivals calls ++ [f]) =
          (FragmentReassembly.arrive (afterAll ⟨[], []⟩ (arrivals calls)) f).2 := by
        simp [afterAll]
      rw [hstate]
      rw [callsFor_append] at hperm
      by_cases hf : f.data.key = key
      · rw [callsFor_cons_same hf, List.append_assoc] at hperm
        have hsame := ih (List.cons_ne_nil f missing) hperm hother' hclear.init
        rw [← hf] at hsame ⊢
        exact hsame.arrive.2
      · have hnil : callsFor key [] = [] := rfl
        rw [callsFor_cons_other hf, hnil, List.append_nil] at hperm
        have hsame := ih hmissing hperm hother' hclear.init
        have hleft := arrive_other (r := afterCalls host calls) hf
        have hright := arrive_other (r := afterAll ⟨[], []⟩ (arrivals calls)) hf
        exact ⟨hleft.1.trans (hsame.1.trans hright.1.symm),
          hleft.2.trans (hsame.2.trans hright.2.symm)⟩
    | dataUnavailable first second =>
      have harrivals : arrivals (calls ++ [.dataUnavailable first second]) = arrivals calls := by
        simp [arrivals]
      rw [harrivals] at hperm ⊢
      have hsame := ih hmissing hperm hother' hclear.init
      have hgone : Gone key ⟨[], []⟩ := ⟨rfl, List.not_mem_nil⟩
      have hpending := hsame.pending (pending_afterAll hsplit hwhole hlarge hgone hmissing hperm)
      have hclears := hclear.clear calls first second [] rfl
      -- The loop body leaves the list of this sample as it is.
      have hdrop : ∀ flist, (afterCalls host calls).fragments.lookup key = some flist →
          (afterCalls host calls).dropEntry host first second key flist = (false, flist) := by
        intro flist hlookup
        apply dropFrom_of_not_reaches
        by_cases hle : first ≤ second
        · refine not_reaches hsplit hlarge hpending ?_ hlookup hle
            (hother first second (List.mem_append_right _ List.mem_cons_self)) (hclears.behind hle)
          exact fun f hf => hperm.mem_iff.mp (List.mem_append_left _ hf)
        · exact hclears.backward (by omega) flist hlookup
      refine ⟨?_, ?_⟩
      · rw [← hsame.1]
        change ((afterCalls host calls).dataUnavailable host first second).fragments.lookup key = _
        rw [dataUnavailable_lookup]
        cases hlookup : (afterCalls host calls).fragments.lookup key with
        | none => rfl
        | some flist => rw [Option.map_some, hdrop flist hlookup]
      · rw [← hsame.2]
        refine (mem_dataUnavailable_haveFirst host first second (afterCalls_distinct calls)).trans
          (or_iff_left ?_)
        rintro ⟨flist, hlookup, hfirst⟩
        rw [hdrop flist hlookup] at hfirst
        cases hfirst
    | dataUnavailableSample key' =>
      have harrivals : arrivals (calls ++ [.dataUnavailableSample key']) = arrivals calls := by
        simp [arrivals]
      rw [harrivals] at hperm ⊢
      have hsame := ih hmissing hperm hother' hclear.init
      have hne : key ≠ key' := by
        rintro rfl
        exact hclear.kept (List.mem_append_right _ List.mem_cons_self)
      refine ⟨?_, ?_⟩
      · rw [← hsame.1]
        change ((afterCalls host calls).fragments.filter _).lookup key = _
        rw [AssociationList.lookup_erase, if_neg hne]
      · rw [← hsame.2]
        change key ∈ (afterCalls host calls).haveFirst.filter _ ↔ _
        simp [hne]

/-- With drops that are clear of the sample, each of its fragments has the same effect as without
them: the sample comes back with the last one that is missing. -/
theorem drops_of_others {before after : List Call} (hsplit : Split key a b frags)
    (hwhole : Whole frags) (hlarge : b < SequenceNumber.maxValue)
    (horder : (callsFor key (arrivals (before ++ .reassemble f :: after))).Perm frags)
    (hf : f.data.key = key)
    (hother : ∀ first second, .dataUnavailable first second ∈ before →
      ∀ n, first ≤ n → n ≤ second → ¬ (a ≤ n ∧ n ≤ b))
    (hclear : AllClear host key b before) :
    (arrive (afterCalls host before) f).1 = (arrive (afterAll ⟨[], []⟩ (arrivals before)) f).1 ∧
    ((∃ f' ∈ arrivals after, f'.data.key = key) → (arrive (afterCalls host before) f).1 = none) ∧
    ((∀ f' ∈ arrivals after, f'.data.key ≠ key) →
      ∃ data, (arrive (afterCalls host before) f).1 = some data ∧ Complete frags data) := by
  have hsplits : arrivals (before ++ .reassemble f :: after) =
      arrivals before ++ f :: arrivals after := by simp [arrivals]
  rw [hsplits, callsFor_append, callsFor_cons_same hf] at horder
  have hsame := same_afterCalls hsplit hwhole hlarge (List.cons_ne_nil f _) horder hother hclear
  have hgone : Gone key ⟨[], []⟩ := ⟨rfl, List.not_mem_nil⟩
  have hpending := hsame.pending (pending_afterAll hsplit hwhole hlarge hgone (List.cons_ne_nil f _) horder)
  have hspec := arrive_spec hsplit hwhole hlarge hpending horder
  refine ⟨?_, fun ⟨f', hf', hkey⟩ => ?_, fun hnone => ?_⟩
  · rw [← hf] at hsame
    exact hsame.arrive.1
  · refine (hspec.1 (List.ne_nil_of_mem (List.mem_filter.mpr ⟨hf', ?_⟩))).1
    simpa using hkey
  · exact (hspec.2 (List.filter_eq_nil_iff.mpr fun f' hf' => by simpa using hnone f' hf')).1

end

section

theorem split_pair : Split (keyOf 1) 5 6 [head, tail] := by
  refine ⟨by decide, ⟨rfl, by decide, rfl, by decide, rfl⟩, ?_, ?_, ?_⟩ <;>
    simp [head, tail, headerOf, keyOf, ReceivedDataSample.key, create]

theorem whole_pair : Whole [head, tail] := by
  refine ⟨?_, ?_⟩ <;> simp [head, tail, headerOf, create]

/-- The last fragment arrives, and a range further on is dropped. -/
def droppedBeyond : List Call := [.reassemble tail, .dataUnavailable 8 9]

theorem drops_of_others_beyond :
    ∃ data, (arrive (afterCalls .littleEndian droppedBeyond) head).1 = some data ∧
      Complete [head, tail] data := by
  have hdrop : ∀ first second, Call.dataUnavailable first second ∈ droppedBeyond →
      first = 8 ∧ second = 9 := by
    intro first second hmem
    simpa [droppedBeyond] using hmem
  have hclear : AllClear .littleEndian (keyOf 1) 6 droppedBeyond := by
    refine ⟨fun before first second after heq => ?_, by simp [droppedBeyond]⟩
    obtain ⟨rfl, rfl⟩ := hdrop first second (heq ▸ by simp)
    exact ⟨fun _ hnext => absurd hnext (by decide), fun hlt => absurd hlt (by decide)⟩
  have hother : ∀ first second, Call.dataUnavailable first second ∈ droppedBeyond →
      ∀ n, first ≤ n → n ≤ second → ¬ (5 ≤ n ∧ n ≤ 6) := by
    intro first second hmem n hfirst hsecond
    obtain ⟨rfl, rfl⟩ := hdrop first second hmem
    omega
  have horder : (callsFor (keyOf 1) (arrivals (droppedBeyond ++ .reassemble head :: []))).Perm
      [head, tail] := List.Perm.swap _ _ _
  exact (drops_of_others split_pair whole_pair (by decide) horder rfl hother hclear).2.2
    fun f' hf' => absurd hf' List.not_mem_nil

/-- The range right behind the last fragment is dropped, and the sample is lost. -/
theorem next_sample_dropped : ¬ ∀ (host : ByteOrder) (key : FragKey) (a b : Int)
    (frags : List Fragment) (before : List Call) (f : Fragment), Split key a b frags →
      Whole frags → b ≤ SequenceNumber.maxValue →
      (callsFor key (arrivals (before ++ [.reassemble f]))).Perm frags → f.data.key = key →
      (∀ key', .dataUnavailableSample key' ∉ before) →
      (∀ first second, .dataUnavailable first second ∈ before → first ≤ second ∧
        ∀ n, first ≤ n → n ≤ second → ¬ (a ≤ n ∧ n ≤ b)) →
      ∃ data, (arrive (afterCalls host before) f).1 = some data ∧ Complete frags data := by
  intro claim
  obtain ⟨data, hdata, -⟩ := claim .littleEndian (keyOf 1) 5 6 [head, tail]
    [.reassemble tail, .dataUnavailable 7 7] head split_pair whole_pair (by decide)
    (List.Perm.swap _ _ _) rfl (by simp) (by
      intro first second hmem
      obtain ⟨rfl, rfl⟩ : first = 7 ∧ second = 7 := by simpa using hmem
      exact ⟨le_refl _, fun n hfirst hsecond => by omega⟩)
  have hlost : ((arrive (afterCalls .littleEndian [.reassemble tail, .dataUnavailable 7 7]) head).1).isNone
      = true := by decide +kernel
  rw [hdata] at hlost
  cases hlost

end

end OpenDDS.Guarantees.UnrelatedDrops
