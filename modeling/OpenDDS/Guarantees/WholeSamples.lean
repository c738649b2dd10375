import OpenDDS.Guarantees.FragmentReassembly
import OpenDDS.Library.Run

/-!
# Only whole samples come back

Ranges of a sample may arrive twice or overlap, and ranges may be dropped. A range that is kept
with a payload has the payload of its numbers, once and in order, because ranges are only joined
where they touch; a dropped one stays in the list as a null range, and with it in the list the
sample does not come back.
-/
namespace OpenDDS.Guarantees.WholeSamples

open Library Source Source.DataSampleHeader Source.TransportReassembly FragmentReassembly

/-- A sample: the numbers of its first and its last fragment, and the payload of each. -/
structure Sample where
  first : Int
  last : Int
  payload : Int → List (BitVec 8)

/-- One copy of each payload from `first` to `second`, in order. -/
def Sample.bytes (sample : Sample) (first second : Int) : List (BitVec 8) :=
  (List.range (second + 1 - first).toNat).flatMap fun (i : Nat) => sample.payload (first + i)

theorem Sample.bytes_append (sample : Sample) {first mid second : Int} (hfirst : first ≤ mid + 1)
    (hsecond : mid ≤ second) :
    sample.bytes first mid ++ sample.bytes (mid + 1) second = sample.bytes first second := by
  have hlength : (second + 1 - first).toNat =
      (mid + 1 - first).toNat + (second + 1 - (mid + 1)).toNat := by omega
  unfold Sample.bytes
  rw [hlength, List.range_add, List.flatMap_append, List.flatMap_map]
  congr 2
  funext i
  congr 1
  omega

/-- A call of `reassemble` with a range of the sample, with or without its payload. -/
structure Genuine (sample : Sample) (f : Fragment) : Prop where
  range : sample.first ≤ f.first ∧ f.first ≤ f.second ∧ f.second ≤ sample.last
  first : f.firstFrag = decide (f.first = sample.first)
  more : f.header.moreFragments = decide (f.second ≠ sample.last)
  payload : f.data.sample ≠ none → f.data.sample = some (sample.bytes f.first f.second)

section

variable {key : FragKey} {sample : Sample} {l l' flist : List FragRange} {f : Fragment}

structure Sound (key : FragKey) (sample : Sample) (fr : FragRange) : Prop where
  range : sample.first ≤ fr.first ∧ fr.first ≤ fr.second ∧ fr.second ≤ sample.last
  sequence : (fr.recDs.header.sequenceHigh, fr.recDs.header.sequenceLow) =
    (key.sequenceHigh, key.sequenceLow)
  more : fr.recDs.header.moreFragments = false → fr.second = sample.last
  payload : fr.recDs.sample = some (sample.bytes fr.first fr.second)

def AllSound (key : FragKey) (sample : Sample) (flist : List FragRange) : Prop :=
  ∀ fr ∈ flist, fr.recDs.sample ≠ none → Sound key sample fr

theorem join_some {first second joined : Header} (h : join first second = some joined) :
    first.moreFragments = true ∧ joined.moreFragments = second.moreFragments ∧
      (joined.sequenceHigh, joined.sequenceLow) = (second.sequenceHigh, second.sequenceLow) := by
  unfold join at h
  split_ifs at h with hnot hfilter
  all_goals
    simp only [not_or, Bool.not_eq_true', Bool.not_eq_false, not_not] at hnot
    cases h
    exact ⟨hnot.1, rfl, rfl⟩

theorem Sound.combined {fr fr' : FragRange} {joined : Header} (h : Sound key sample fr)
    (h' : Sound key sample fr') (htouch : fr.second + 1 = fr'.first)
    (hjoin : join fr.recDs.header fr'.recDs.header = some joined) :
    Sound key sample (combined fr fr' joined) := by
  obtain ⟨-, hmore, hseq⟩ := join_some hjoin
  have hrange := h.range
  have hrange' := h'.range
  refine ⟨⟨hrange.1, show fr.first ≤ fr'.second by omega, hrange'.2.2⟩, hseq.trans h'.sequence, ?_, ?_⟩
  · exact fun hfalse => h'.more (hmore.symm.trans hfalse)
  · change chain fr.recDs.sample fr'.recDs.sample = _
    rw [h.payload, h'.payload, ← htouch]
    exact congrArg some (sample.bytes_append (by omega) (by omega))

theorem Sound.withMore {fr : FragRange} (h : Sound key sample fr) : Sound key sample (withMore fr) :=
  ⟨h.range, h.sequence, fun hfalse => absurd hfalse (by simp [TransportReassembly.withMore]), h.payload⟩

theorem AllSound.merges (h : AllSound key sample l) (hmerges : Merges l l') : AllSound key sample l' :=
  hmerges.payload (fun _ _ _ htouch hjoin hfr hfr' => hfr.combined hfr' htouch hjoin)
    (fun _ hfr => hfr.withMore) h

/-- The first fragment is in the list, or a null range. -/
def Anchored (first : Int) (flist : List FragRange) : Prop :=
  ∃ fr ∈ flist, fr.recDs.sample = none ∨ fr.first = first

theorem Anchored.merges (h : Anchored sample.first l) (hsound : AllSound key sample l)
    (hmerges : Merges l l') : Anchored sample.first l' := by
  induction hmerges with
  | perm hperm =>
    obtain ⟨fr, hfr, hwhat⟩ := h
    exact ⟨fr, hperm.mem_iff.mp hfr, hwhat⟩
  | @join x y joined rest htouch hjoin =>
    obtain ⟨fr, hfr, hwhat⟩ := h
    simp only [List.mem_cons] at hfr
    by_cases hnull : chain x.recDs.sample y.recDs.sample = none
    · exact ⟨_, List.mem_cons_self, .inl hnull⟩
    have hboth := not_or.mp (mt chain_eq_none_iff.mpr hnull)
    obtain rfl | rfl | hfr := hfr
    · exact ⟨_, List.mem_cons_self, hwhat.imp (fun hnone => absurd hnone hboth.1) id⟩
    · -- A range with a payload does not end before the first fragment.
      have hx := (hsound x List.mem_cons_self hboth.1).range
      have hy := hwhat.resolve_left hboth.2
      omega
    · exact ⟨fr, List.mem_cons_of_mem _ hfr, hwhat⟩
  | more =>
    simp only [Anchored, List.mem_cons, exists_eq_or_imp] at h ⊢
    exact h
  | header joined _ => exact ⟨_, List.mem_cons_self, .inl rfl⟩
  | trans hmerges _ ih ih' => exact ih' (ih h hsound) (hsound.merges hmerges)

theorem Genuine.sound (h : Genuine sample f) (hkey : f.data.key = key)
    (hsome : f.data.sample ≠ none) : Sound key sample ⟨f.first, f.second, f.data⟩ := by
  refine ⟨h.range, ?_, fun hfalse => ?_, h.payload hsome⟩
  · rw [← hkey]
    rfl
  · have hmore := h.more.symm.trans hfalse
    simpa using hmore

theorem AllSound.insert (h : AllSound key sample flist) (hf : Genuine sample f)
    (hkey : f.data.key = key) :
    AllSound key sample (TransportReassembly.insert f.first f.second f.data flist).2 := by
  obtain hin | ⟨-, hout, -⟩ := insert_merges f.first f.second f.data flist
  · refine AllSound.merges ?_ hin
    exact List.forall_mem_cons.mpr ⟨hf.sound hkey, h⟩
  · exact h.merges hout

theorem AllSound.null_of_refused (h : AllSound key sample flist) (hf : Genuine sample f)
    (hkey : f.data.key = key) (hrefused : Refused f.first f.second f.data flist) :
    ∃ fr ∈ flist, fr.recDs.sample = none := by
  obtain ⟨fr, hfr, hcase⟩ := hrefused
  refine ⟨fr, hfr, ?_⟩
  by_contra hsome
  have hsound := h fr hfr hsome
  have hrange := hsound.range
  have hfrange := hf.range
  have hsequence : (f.header.sequenceHigh, f.header.sequenceLow) =
      (fr.recDs.header.sequenceHigh, fr.recDs.header.sequenceLow) := by
    rw [hsound.sequence, ← hkey]
    rfl
  obtain ⟨htouch, hnone⟩ | ⟨htouch, hnone⟩ := hcase
  · have hmore : f.header.moreFragments = true := by
      rw [hf.more, decide_eq_true_eq]
      omega
    obtain ⟨joined, hjoin, -⟩ := join_spec hmore hsequence
    rw [hnone] at hjoin
    cases hjoin
  · have hexpect : expectMore fr = fr := by
      unfold expectMore
      cases hsample : fr.recDs.sample with
      | none => exact absurd hsample hsome
      | some bytes => rfl
    have hmore : fr.recDs.header.moreFragments = true := by
      by_contra hnot
      have hlast := hsound.more (by simpa using hnot)
      omega
    obtain ⟨joined, hjoin, -⟩ := join_spec hmore hsequence.symm
    rw [hexpect, hjoin] at hnone
    cases hnone

theorem Anchored.insert (h : f.firstFrag = true ∨ Anchored sample.first flist)
    (hsound : AllSound key sample flist) (hf : Genuine sample f) (hkey : f.data.key = key) :
    Anchored sample.first (TransportReassembly.insert f.first f.second f.data flist).2 := by
  obtain hin | ⟨-, hout, hrefused⟩ := insert_merges f.first f.second f.data flist
  · refine Anchored.merges ?_ (List.forall_mem_cons.mpr ⟨hf.sound hkey, hsound⟩) hin
    obtain hfirst | ⟨fr, hfr, hwhat⟩ := h
    · refine ⟨_, List.mem_cons_self, .inr ?_⟩
      have hdecide := hf.first.symm.trans hfirst
      exact of_decide_eq_true hdecide
    · exact ⟨fr, List.mem_cons_of_mem _ hfr, hwhat⟩
  · obtain ⟨fr, hfr, hnone⟩ := hout.null (hsound.null_of_refused hf hkey hrefused)
    exact ⟨fr, hfr, .inl hnone⟩

end

section

variable {key : FragKey} {sample : Sample} {r : Reassembly} {f : Fragment}

structure Held (key : FragKey) (sample : Sample) (r : Reassembly) : Prop where
  sound : ∀ flist, r.fragments.lookup key = some flist → AllSound key sample flist
  anchored : key ∈ r.haveFirst → ∃ flist, r.fragments.lookup key = some flist ∧
    Anchored sample.first flist

theorem held_of_gone (h : Gone key r) : Held key sample r where
  sound := fun flist hflist => by rw [h.1] at hflist; cases hflist
  anchored := fun hmem => absurd hmem h.2

theorem Held.inserted (held : Held f.data.key sample r) {flist : List FragRange}
    (hlookup : r.fragments.lookup f.data.key = some flist) (hf : Genuine sample f) :
    AllSound f.data.key sample (TransportReassembly.insert f.first f.second f.data flist).2 ∧
      (f.data.key ∈ firstAfter r f → Anchored sample.first
        (TransportReassembly.insert f.first f.second f.data flist).2) := by
  have hsound := held.sound _ hlookup
  refine ⟨hsound.insert hf rfl, fun hfirst => Anchored.insert ?_ hsound hf rfl⟩
  obtain ⟨hfirst, -⟩ | hmem := mem_firstAfter.mp hfirst
  · exact .inl hfirst
  · obtain ⟨flist', hlookup', hanchored⟩ := held.anchored hmem
    rw [hlookup] at hlookup'
    cases hlookup'
    exact .inr hanchored

theorem Held.arrive (held : Held f.data.key sample r) (hf : Genuine sample f) :
    Held f.data.key sample (arrive r f).2 := by
  cases hlookup : r.fragments.lookup f.data.key with
  | none =>
    obtain ⟨-, hhave, hnew⟩ := arrive_new hlookup
    refine ⟨fun flist hflist => ?_, fun hfirst => ⟨_, hnew, _, List.mem_cons_self, .inr ?_⟩⟩
    · rw [hnew] at hflist
      cases hflist
      exact List.forall_mem_singleton.mpr (hf.sound rfl)
    · rw [hhave] at hfirst
      obtain ⟨hfirst, -⟩ | hmem := mem_firstAfter.mp hfirst
      · exact of_decide_eq_true (hf.first.symm.trans hfirst)
      · obtain ⟨flist, hsome, -⟩ := held.anchored hmem
        rw [hlookup] at hsome
        cases hsome
  | some flist =>
    obtain ⟨hsound, hanchored⟩ := held.inserted hlookup hf
    obtain ⟨-, -, hhave, hstored⟩ | ⟨front, -, -, hgone, hnot⟩ := arrive_same hlookup
    · refine ⟨fun flist' hflist' => ?_, fun hfirst => ⟨_, hstored, hanchored (hhave ▸ hfirst)⟩⟩
      rw [hstored] at hflist'
      cases hflist'
      exact hsound
    · exact held_of_gone ⟨hgone, hnot⟩

theorem Held.other (held : Held key sample r) (hother : f.data.key ≠ key) :
    Held key sample (FragmentReassembly.arrive r f).2 := by
  obtain ⟨hlookup, hfirst⟩ := arrive_other hother
  refine ⟨fun flist hflist => ?_, fun hmem => ?_⟩
  · exact held.sound flist (hlookup ▸ hflist)
  · rw [hlookup]
    exact held.anchored (hfirst.mp hmem)

theorem Held.ends (held : Held f.data.key sample r) (hf : Genuine sample f)
    {data : ReceivedDataSample} (hdata : (FragmentReassembly.arrive r f).1 = some data) :
    ∃ flist front, r.fragments.lookup f.data.key = some flist ∧ Ends r f flist front ∧
      data = front.recDs ∧ data.sample ≠ none ∧ Sound f.data.key sample front ∧
      front.first = sample.first ∧ front.second = sample.last := by
  cases hlookup : r.fragments.lookup f.data.key with
  | none =>
    rw [(arrive_new hlookup).1] at hdata
    cases hdata
  | some flist =>
    obtain ⟨hsound, hanchored⟩ := held.inserted hlookup hf
    obtain ⟨-, hnone, -, -⟩ | ⟨front, hends, hresult, -, -⟩ := arrive_same hlookup
    · rw [hnone] at hdata
      cases hdata
    · obtain ⟨hlist, hfirst, hmore⟩ := hends
      rw [hresult] at hdata
      split_ifs at hdata with hsome
      cases hdata
      rw [hlist] at hsound hanchored
      have hnull : front.recDs.sample ≠ none := Option.isSome_iff_ne_none.mp hsome
      have hfront := hsound front List.mem_cons_self hnull
      obtain ⟨fr, hfr, hwhat⟩ := hanchored hfirst
      rw [List.mem_singleton.mp hfr] at hwhat
      exact ⟨flist, front, rfl, ⟨hlist, hfirst, hmore⟩, rfl, hnull, hfront,
        hwhat.resolve_left hnull, hfront.more hmore⟩

theorem Held.whole (held : Held f.data.key sample r) (hf : Genuine sample f)
    {data : ReceivedDataSample} (hdata : (FragmentReassembly.arrive r f).1 = some data) :
    data.sample = some (sample.bytes sample.first sample.last) := by
  obtain ⟨flist, front, -, -, rfl, -, hfront, hfirst, hlast⟩ := held.ends hf hdata
  rw [hfront.payload, hfirst, hlast]

theorem Held.dataUnavailable (held : Held key sample r) (hdistinct : Distinct r) (host : ByteOrder)
    (first second : Int) : Held key sample (r.dataUnavailable host first second) := by
  have hdropped : ∀ flist, r.fragments.lookup key = some flist →
      AllSound key sample (r.dropEntry host first second key flist).2 ∧
      (Anchored sample.first flist →
        Anchored sample.first (r.dropEntry host first second key flist).2) := by
    intro flist hlookup
    obtain ⟨l, hnull, hmerges⟩ := dropFrom_merges host first second key (decide (key ∈ r.haveFirst)) flist
    have hsound : AllSound key sample (l ++ flist) := by
      intro fr hfr hsome
      obtain hfr | hfr := List.mem_append.mp hfr
      · exact absurd (hnull fr hfr) hsome
      · exact held.sound flist hlookup fr hfr hsome
    refine ⟨hsound.merges hmerges, fun hanchored => Anchored.merges ?_ hsound hmerges⟩
    obtain ⟨fr, hfr, hwhat⟩ := hanchored
    exact ⟨fr, List.mem_append_right _ hfr, hwhat⟩
  refine ⟨fun flist hlookup => ?_, fun hmem => ?_⟩
  · rw [dataUnavailable_lookup] at hlookup
    obtain ⟨flist', hlookup', rfl⟩ := Option.map_eq_some_iff.mp hlookup
    exact (hdropped flist' hlookup').1
  · rw [dataUnavailable_lookup]
    obtain hmem | ⟨flist, hlookup, hfirst⟩ :=
      (mem_dataUnavailable_haveFirst host first second hdistinct).mp hmem
    · obtain ⟨flist, hlookup, hanchored⟩ := held.anchored hmem
      rw [hlookup]
      exact ⟨_, rfl, (hdropped flist hlookup).2 hanchored⟩
    · rw [hlookup]
      obtain ⟨fr, hfr, hnone⟩ := dropFrom_first host hfirst fun fr hfr hsome =>
        (held.sound flist hlookup fr hfr hsome).sequence
      exact ⟨_, rfl, fr, hfr, .inl hnone⟩

theorem Held.dataUnavailableSample (held : Held key sample r) (key' : FragKey) :
    Held key sample (r.dataUnavailableSample key') := by
  have hlookup : (r.dataUnavailableSample key').fragments.lookup key =
      if key = key' then none else r.fragments.lookup key := AssociationList.lookup_erase r.fragments
  refine ⟨fun flist hflist => ?_, fun hmem => ?_⟩
  · rw [hlookup] at hflist
    split_ifs at hflist
    exact held.sound flist hflist
  · obtain ⟨hmem, hne⟩ := List.mem_filter.mp hmem
    rw [hlookup, if_neg (by simpa using hne)]
    exact held.anchored hmem

end

section

variable {samples : FragKey → Sample} {r : Reassembly} {f : Fragment}

structure Inv (samples : FragKey → Sample) (r : Reassembly) : Prop where
  distinct : Distinct r
  held : ∀ key, Held key (samples key) r

theorem Inv.start : Inv samples ⟨[], []⟩ :=
  ⟨List.nodup_nil, fun _ => held_of_gone ⟨rfl, List.not_mem_nil⟩⟩

theorem Inv.arrive (inv : Inv samples r) (hf : Genuine (samples f.data.key) f) :
    Inv samples (arrive r f).2 := by
  refine ⟨inv.distinct.reassembleI _ _ _ _, fun key => ?_⟩
  by_cases hkey : f.data.key = key
  · rw [← hkey]
    exact (inv.held _).arrive hf
  · exact (inv.held key).other hkey

/-- A call, `reassemble` with either of its signatures. -/
inductive Call where
  | reassemble (f : Fragment)
  | dataUnavailable (first second : Int)
  | dataUnavailableSample (key : FragKey)

def perform (host : ByteOrder) (r : Reassembly) : Call → Reassembly
  | .reassemble f => (FragmentReassembly.arrive r f).2
  | .dataUnavailable first second => r.dataUnavailable host first second
  | .dataUnavailableSample key => r.dataUnavailableSample key

/-- Ranges that arrive are ranges of their samples; any may be dropped. -/
def Follows (host : ByteOrder) (samples : FragKey → Sample) (r : Reassembly) (call : Call)
    (after : Reassembly) : Prop :=
  (∀ f, call = .reassemble f → Genuine (samples f.data.key) f) ∧ after = perform host r call

theorem run_perform (host : ByteOrder) {calls : List Call}
    (hgenuine : ∀ f, .reassemble f ∈ calls → Genuine (samples f.data.key) f) :
    Run ⟨[], []⟩ (Follows host samples) calls (calls.foldl (perform host) ⟨[], []⟩) := by
  induction calls using List.reverseRecOn with
  | nil => exact .start
  | append_singleton calls call ih =>
    rw [List.foldl_append]
    have hbefore := ih fun f hf => hgenuine f (List.mem_append_left _ hf)
    exact hbefore.next ⟨fun f hf => hgenuine f (by simp [hf]), rfl⟩

theorem run_inv {host : ByteOrder} {calls : List Call}
    (run : Run ⟨[], []⟩ (Follows host samples) calls r) : Inv samples r := by
  refine run.invariant (Inv samples) Inv.start fun s call after inv h => ?_
  obtain ⟨hgenuine, rfl⟩ := h
  cases call with
  | reassemble f => exact inv.arrive (hgenuine f rfl)
  | dataUnavailable first second =>
    exact ⟨inv.distinct.dataUnavailable host first second,
      fun key => (inv.held key).dataUnavailable inv.distinct host first second⟩
  | dataUnavailableSample key' =>
    exact ⟨inv.distinct.erase _, fun key => (inv.held key).dataUnavailableSample key'⟩

/-- Whatever has arrived twice, overlaps or was dropped, a sample that comes back has each of its
payloads once, from the first to the last. -/
theorem delivered_whole {host : ByteOrder} {calls : List Call}
    (run : Run ⟨[], []⟩ (Follows host samples) calls r) (hf : Genuine (samples f.data.key) f)
    {data : ReceivedDataSample} (hdata : (FragmentReassembly.arrive r f).1 = some data) :
    data.sample = some ((samples f.data.key).bytes (samples f.data.key).first
      (samples f.data.key).last) :=
  ((run_inv run).held _).whole hf hdata

end

section

def twoFragments : Sample := ⟨5, 6, fun n => if n = 5 then [10] else [11]⟩

def head : Fragment := ⟨5, 5, true, ⟨headerOf 1 true 1, some [10]⟩⟩

def tail : Fragment := ⟨6, 6, false, ⟨headerOf 1 false 1, some [11]⟩⟩

theorem head_genuine : Genuine twoFragments head :=
  ⟨by decide, by decide, by decide, fun _ => rfl⟩

theorem tail_genuine : Genuine twoFragments tail :=
  ⟨by decide, by decide, by decide, fun _ => rfl⟩

/-- The second fragment is dropped, the sample is given up, and the first fragment comes again. -/
def anotherAttempt : List Call :=
  [.reassemble head, .dataUnavailable 6 6, .dataUnavailableSample (keyOf 1), .reassemble head]

theorem delivered_whole_again :
    ∃ data, (arrive (anotherAttempt.foldl (perform .littleEndian) ⟨[], []⟩) tail).1 = some data ∧
      data.sample = some (twoFragments.bytes 5 6) := by
  have hhead : ∀ f, .reassemble f ∈ anotherAttempt → Genuine twoFragments f := by
    intro f hf
    have heq : f = head := by simpa [anotherAttempt] using hf
    rw [heq]
    exact head_genuine
  have run := @run_perform (fun _ => twoFragments) .littleEndian anotherAttempt hhead
  have hdata : ((arrive (anotherAttempt.foldl (perform .littleEndian) ⟨[], []⟩) tail).1).isSome = true := by
    decide +kernel
  obtain ⟨data, hdata⟩ := Option.isSome_iff_exists.mp hdata
  exact ⟨data, hdata, delivered_whole run tail_genuine hdata⟩

end

end OpenDDS.Guarantees.WholeSamples
