import OpenDDS.Guarantees.WholeSamples
import OpenDDS.Source.BitmapContents

/-!
# Fragments that come again

`insert` compares the ends of a range with those of the ranges that are kept. One that is there
already finds no place of its own: it stands in the list a second time, and the ranges that are
kept have more numbers than the sample, so that they never become one. After the sample has come
back, a fragment that comes again starts it anew, and `get_gaps` asks for the others.
-/
namespace OpenDDS.Guarantees.DuplicateFragments

open Source Source.DataSampleHeader Source.TransportReassembly Source.DisjointSequence
open FragmentReassembly WholeSamples

section

variable {key : FragKey} {a b : Int} {frags calls : List Fragment} {f g : Fragment}

theorem covers_all (h : Covering a b frags) {n : Int} (hfirst : a ≤ n) (hsecond : n ≤ b) :
    ∃ f ∈ frags, f.first ≤ n ∧ n ≤ f.second := by
  induction frags generalizing a with
  | nil =>
    change a = b + 1 at h
    omega
  | cons f rest ih =>
    obtain ⟨hf, -, hrest⟩ := h
    by_cases hn : n ≤ f.second
    · exact ⟨f, List.mem_cons_self, by omega, hn⟩
    · obtain ⟨f', hf', hin⟩ := ih hrest (by omega)
      exact ⟨f', List.mem_cons_of_mem _ hf', hin⟩

theorem eq_of_shared (hsplit : Split key a b frags) (hf : f ∈ frags) (hg : g ∈ frags) {n : Int}
    (hn : f.first ≤ n ∧ n ≤ f.second) (hn' : g.first ≤ n ∧ n ≤ g.second) : f = g := by
  have hpairs : frags.Pairwise fun f g => f.second < g.first ∨ g.second < f.first :=
    hsplit.covering.ascending.imp Or.inl
  have : Std.Symm fun f g : Fragment => f.second < g.first ∨ g.second < f.first :=
    ⟨fun _ _ => Or.symm⟩
  by_contra hne
  have := hpairs.forall hf hg hne
  omega

theorem split_nodup (hsplit : Split key a b frags) : frags.Nodup := by
  refine hsplit.covering.ascending.imp_of_mem fun {f g} hf _ h heq => ?_
  have hrange := (hsplit.covering.bounds f hf).2.1
  rw [← heq] at h
  omega

theorem width_of_again (hsplit : Split key a b frags) (hsub : ∀ f ∈ calls, f ∈ frags)
    (hall : ∀ f ∈ frags, f ∈ calls) (hagain : ¬ calls.Nodup) : b - a + 1 < (calls.map width).sum := by
  obtain ⟨l, hl, hsublist⟩ := List.subperm_of_subset (split_nodup hsplit) fun f hf => hall f hf
  obtain ⟨rest, hrest⟩ := hsublist.exists_perm_append
  have hperm : calls.Perm (frags ++ rest) := hrest.trans (hl.append_right rest)
  rw [(hperm.map width).sum_eq, List.map_append, List.sum_append, hsplit.covering.width]
  cases rest with
  | nil =>
    rw [List.append_nil] at hperm
    exact absurd (hperm.nodup_iff.mpr (split_nodup hsplit)) hagain
  | cons f rest =>
    have hpos : ∀ g ∈ f :: rest, 0 < width g := by
      intro g hg
      have := hsplit.covering.bounds g (hsub g (hperm.mem_iff.mpr (List.mem_append_right _ hg)))
      unfold width
      omega
    have hsum : 0 ≤ (rest.map width).sum := by
      apply List.sum_nonneg
      intro n hn
      obtain ⟨f', hf', rfl⟩ := List.mem_map.mp hn
      exact (hpos f' (List.mem_cons_of_mem _ hf')).le
    have := hpos f List.mem_cons_self
    rw [List.map_cons, List.sum_cons]
    omega

/-- The payload of a fragment stands at its first number. -/
def payloadAt (frags : List Fragment) (n : Int) : List (BitVec 8) :=
  ((frags.find? fun f => f.first = n).map payload).getD []

theorem payloadAt_of_mem (hsplit : Split key a b frags) (hf : f ∈ frags) {n : Int}
    (hn : f.first ≤ n ∧ n ≤ f.second) :
    payloadAt frags n = if n = f.first then payload f else [] := by
  unfold payloadAt
  cases hfind : frags.find? fun f => f.first = n with
  | none =>
    have hnone := List.find?_eq_none.mp hfind f hf
    rw [if_neg fun heq => hnone (by simp [heq])]
    rfl
  | some g =>
    have hg := List.mem_of_find?_eq_some hfind
    have hgn : g.first = n := by simpa using List.find?_some hfind
    have hrange := (hsplit.covering.bounds g hg).2.1
    have heq := eq_of_shared hsplit hf hg hn (by omega)
    rw [heq, if_pos hgn.symm]
    rfl

def sampleOf (a b : Int) (frags : List Fragment) : Sample := ⟨a, b, payloadAt frags⟩

theorem genuine_of_mem (hsplit : Split key a b frags) (hf : f ∈ frags) :
    Genuine (sampleOf a b frags) f := by
  have hbounds := hsplit.covering.bounds f hf
  refine ⟨hbounds, hsplit.first f hf, hsplit.more f hf, fun hsome => ?_⟩
  obtain ⟨bytes, hbytes⟩ := Option.ne_none_iff_exists'.mp hsome
  have hpayload : payload f = bytes := by simp [payload, hbytes]
  have hat : ∀ i : Nat, i < (f.second + 1 - f.first).toNat →
      payloadAt frags (f.first + i) = if i = 0 then bytes else [] := by
    intro i hi
    rw [payloadAt_of_mem hsplit hf (by omega), hpayload]
    exact if_congr (by omega) rfl rfl
  obtain ⟨k, hk⟩ : ∃ k, (f.second + 1 - f.first).toNat = k + 1 :=
    ⟨(f.second - f.first).toNat, by omega⟩
  rw [hbytes]
  unfold Sample.bytes
  simp only [sampleOf]
  rw [hk] at hat ⊢
  rw [List.range_succ_eq_map, List.flatMap_cons, hat 0 (by omega), if_pos rfl]
  have hrest : ((List.range k).map Nat.succ).flatMap (fun i : Nat => payloadAt frags (f.first + i)) = [] := by
    rw [List.flatMap_eq_nil_iff]
    intro i hi
    obtain ⟨j, hj, rfl⟩ := List.mem_map.mp hi
    rw [hat _ (by have := List.mem_range.mp hj; omega), if_neg (Nat.succ_ne_zero j)]
  rw [hrest, List.append_nil]

end

section

variable {key : FragKey} {a b : Int} {frags calls before after : List Fragment} {f : Fragment}
  {r : Reassembly}

/-- With this call every fragment has been seen, and before it one was missing. -/
def Completes (frags before : List Fragment) (f : Fragment) : Prop :=
  (∀ g ∈ frags, g ∈ before ++ [f]) ∧ ∃ g ∈ frags, g ∉ before

/-- `get_gaps` with an empty bitmap reports the fragment. -/
def Reported (key : FragKey) (r : Reassembly) (n : Int) : Prop :=
  ∃ i, i < (r.getGaps key (fun _ => 0) 8 0).2.2 ∧
    bitSet (r.getGaps key (fun _ => 0) 8 0).2.1 i = true ∧
    n = (r.getGaps key (fun _ => 0) 8 0).1 + i

/-- The sample comes back at the first point where every fragment has been seen, and no fragment
that was received is reported missing. -/
structure Tolerates (key : FragKey) (frags : List Fragment) (r : Reassembly) (calls : List Fragment) :
    Prop where
  delivered : ∀ before f after, calls = before ++ f :: after → Completes frags before f →
    ∃ data, (arrive (afterAll r before) f).1 = some data ∧
      data.sample = some (frags.flatMap payload)
  otherwise : ∀ before f after, calls = before ++ f :: after → ¬ Completes frags before f →
    (arrive (afterAll r before) f).1 = none
  gaps : ∀ before after, calls = before ++ after → ∀ f ∈ before, ∀ n,
    Reported key (afterAll r before) n → ¬ (f.first ≤ n ∧ n ≤ f.second)

theorem exists_completes (hne : frags ≠ []) (hall : ∀ g ∈ frags, g ∈ calls) :
    ∃ before f after, calls = before ++ f :: after ∧ Completes frags before f := by
  induction calls using List.reverseRecOn with
  | nil =>
    obtain ⟨g, hg⟩ := List.exists_mem_of_ne_nil frags hne
    exact absurd (hall g hg) List.not_mem_nil
  | append_singleton calls f ih =>
    by_cases hbefore : ∀ g ∈ frags, g ∈ calls
    · obtain ⟨before, f', after, heq, hcompletes⟩ := ih hbefore
      exact ⟨before, f', after ++ [f], by rw [heq, List.append_assoc]; rfl, hcompletes⟩
    · push Not at hbefore
      exact ⟨calls, f, [], rfl, hall, hbefore⟩

theorem afterAll_concat (r : Reassembly) (calls : List Fragment) (f : Fragment) :
    afterAll r (calls ++ [f]) = (arrive (afterAll r calls) f).2 :=
  List.foldl_concat _ _ _ _

theorem afterAll_invariant {P : Reassembly → Prop} (hstart : P r)
    (hstep : ∀ r, ∀ f ∈ frags, P r → P (arrive r f).2) (hsub : ∀ f ∈ calls, f ∈ frags) :
    P (afterAll r calls) := by
  induction calls using List.reverseRecOn with
  | nil => exact hstart
  | append_singleton calls f ih =>
    rw [afterAll_concat]
    exact hstep _ f (hsub f (by simp)) (ih fun g hg => hsub g (List.mem_append_left _ hg))

/-- The numbers of a range with a payload came with fragments that have one. -/
def Carried (frags : List Fragment) (fr : FragRange) : Prop :=
  ∀ n, fr.first ≤ n → n ≤ fr.second → ∃ f ∈ frags, f.data.sample ≠ none ∧ f.first ≤ n ∧ n ≤ f.second

def AllCarried (frags : List Fragment) (flist : List FragRange) : Prop :=
  ∀ fr ∈ flist, fr.recDs.sample ≠ none → Carried frags fr

def KeptCarried (key : FragKey) (frags : List Fragment) (r : Reassembly) : Prop :=
  ∀ flist, r.fragments.lookup key = some flist → AllCarried frags flist

theorem AllCarried.insert {flist : List FragRange} (h : AllCarried frags flist) (hf : f ∈ frags) :
    AllCarried frags (TransportReassembly.insert f.first f.second f.data flist).2 := by
  have hmerges : ∀ l l', Merges l l' → AllCarried frags l → AllCarried frags l' := by
    intro l l' hmerges hall
    refine hmerges.payload (fun fr fr' joined htouch _ hfr hfr' n hfirst hsecond => ?_)
      (fun _ hfr => hfr) hall
    by_cases hn : n ≤ fr.second
    · exact hfr n hfirst hn
    · exact hfr' n (by omega) hsecond
  obtain hin | ⟨-, hout, -⟩ := insert_merges f.first f.second f.data flist
  · refine hmerges _ _ hin (List.forall_mem_cons.mpr ⟨fun hsome n hfirst hsecond => ?_, h⟩)
    exact ⟨f, hf, hsome, hfirst, hsecond⟩
  · exact hmerges _ _ hout h

theorem carried_arrive (hsplit : Split key a b frags) (hf : f ∈ frags)
    (h : KeptCarried key frags r) : KeptCarried key frags (arrive r f).2 := by
  have hkey := hsplit.key f hf
  rw [← hkey] at h ⊢
  intro flist' hflist'
  cases hlookup : r.fragments.lookup f.data.key with
  | none =>
    rw [(arrive_new hlookup).2.2] at hflist'
    cases hflist'
    exact List.forall_mem_singleton.mpr fun hsome n hfirst hsecond => ⟨f, hf, hsome, hfirst, hsecond⟩
  | some flist =>
    obtain ⟨-, -, -, hstored⟩ | ⟨front, -, -, hgone, -⟩ := arrive_same hlookup
    · rw [hstored] at hflist'
      cases hflist'
      exact (h flist hlookup).insert hf
    · rw [hgone] at hflist'
      cases hflist'

theorem held_afterAll (hsplit : Split key a b frags) (hgone : Gone key r)
    (hsub : ∀ f ∈ calls, f ∈ frags) : Held key (sampleOf a b frags) (afterAll r calls) := by
  refine afterAll_invariant (held_of_gone hgone) (fun r g hg held => ?_) hsub
  have hkey := hsplit.key g hg
  rw [← hkey] at held ⊢
  exact held.arrive (genuine_of_mem hsplit hg)

theorem solid_of_delivered (hsplit : Split key a b frags) (hgone : Gone key r)
    (hsub : ∀ g ∈ before, g ∈ frags) (hf : f ∈ frags) {data : ReceivedDataSample}
    (hdata : (arrive (afterAll r before) f).1 = some data) :
    ∀ g ∈ frags, g.data.sample ≠ none := by
  have hkey := hsplit.key f hf
  have hheld := held_afterAll hsplit hgone hsub
  have hcarried : KeptCarried key frags (afterAll r before) := by
    refine afterAll_invariant ?_ (fun r g hg => carried_arrive hsplit hg) hsub
    intro flist hflist
    rw [hgone.1] at hflist
    cases hflist
  rw [← hkey] at hheld hcarried
  obtain ⟨flist, front, hlookup, hends, rfl, hnull, -, hfirst, hlast⟩ :=
    hheld.ends (genuine_of_mem hsplit hf) hdata
  have hfront := (hcarried flist hlookup).insert hf
  rw [hends.1] at hfront
  intro g hg
  have hbounds := hsplit.covering.bounds g hg
  have hfirst : front.first = a := hfirst
  have hlast : front.second = b := hlast
  obtain ⟨g', hg', hsome, hin⟩ := hfront front List.mem_cons_self hnull g.first (by omega) (by omega)
  rwa [eq_of_shared hsplit hg hg' (by omega) hin]

/-- Nothing has come back: the ranges that are kept have the numbers of all calls. -/
structure Counted (key : FragKey) (calls : List Fragment) (r : Reassembly) : Prop where
  absent : calls = [] → r.fragments.lookup key = none
  kept : calls ≠ [] → ∃ flist, r.fragments.lookup key = some flist ∧
    (∀ fr ∈ flist, fr.recDs.sample ≠ none) ∧
    (flist.map FragRange.width).sum = (calls.map width).sum

theorem insert_again {flist : List FragRange} (hsplit : Split key a b frags) (hf : f ∈ frags)
    (hsome : f.data.sample ≠ none) (hsound : AllSound key (sampleOf a b frags) flist)
    (hsolid : ∀ fr ∈ flist, fr.recDs.sample ≠ none) :
    (∀ fr ∈ (TransportReassembly.insert f.first f.second f.data flist).2, fr.recDs.sample ≠ none) ∧
    ((TransportReassembly.insert f.first f.second f.data flist).2.map FragRange.width).sum =
      (flist.map FragRange.width).sum + width f := by
  obtain hin | ⟨-, -, hrefused⟩ := insert_merges f.first f.second f.data flist
  · refine ⟨hin.solid (List.forall_mem_cons.mpr ⟨hsome, hsolid⟩), ?_⟩
    rw [hin.width, List.map_cons, List.sum_cons, add_comm]
    rfl
  · obtain ⟨fr, hfr, hnone⟩ :=
      hsound.null_of_refused (genuine_of_mem hsplit hf) (hsplit.key f hf) hrefused
    exact absurd hnone (hsolid fr hfr)

theorem counted_afterAll (hsplit : Split key a b frags) (hgone : Gone key r)
    (hsolid : ∀ f ∈ frags, f.data.sample ≠ none) (hsub : ∀ f ∈ calls, f ∈ frags)
    (hsilent : ∀ before f after, calls = before ++ f :: after →
      (arrive (afterAll r before) f).1 = none) :
    Counted key calls (afterAll r calls) := by
  induction calls using List.reverseRecOn with
  | nil => exact ⟨fun _ => hgone.1, fun hnil => absurd rfl hnil⟩
  | append_singleton calls f ih =>
    have hsub' : ∀ g ∈ calls, g ∈ frags := fun g hg => hsub g (List.mem_append_left _ hg)
    have hf : f ∈ frags := hsub f (by simp)
    have hkey := hsplit.key f hf
    have hheld := held_afterAll hsplit hgone hsub'
    have hcounted := ih hsub' fun before g after heq =>
      hsilent before g (after ++ [f]) (by rw [heq, List.append_assoc]; rfl)
    refine ⟨fun hnil => absurd hnil (by simp), fun _ => ?_⟩
    rw [afterAll_concat, List.map_append, List.sum_append, List.map_singleton, List.sum_singleton]
    by_cases hnew : calls = []
    · have hlookup := hcounted.absent hnew
      rw [← hkey] at hlookup ⊢
      refine ⟨_, (arrive_new hlookup).2.2, List.forall_mem_singleton.mpr (hsolid f hf), ?_⟩
      rw [hnew]
      simp [FragRange.width, width]
    · obtain ⟨flist, hlookup, hfull, hwidth⟩ := hcounted.kept hnew
      obtain ⟨hfull', hwidth'⟩ := insert_again hsplit hf (hsolid f hf) (hheld.sound flist hlookup) hfull
      rw [hwidth] at hwidth'
      rw [← hkey] at hlookup ⊢
      obtain ⟨-, -, -, hstored⟩ | ⟨front, hends, hresult, -, -⟩ := arrive_same hlookup
      · exact ⟨_, hstored, hfull', hwidth'⟩
      · -- A range with a payload would have come back.
        rw [hends.1] at hfull'
        have hsome := Option.isSome_iff_ne_none.mpr (hfull' front List.mem_cons_self)
        rw [if_pos hsome, hsilent calls f [] rfl] at hresult
        cases hresult

theorem exists_reported (hsplit : Split key 1 b frags) (hlarge : b < 2 ^ 32) (hf : f ∈ frags)
    (hlookup : r.fragments.lookup key = some [⟨f.first, f.second, f.data⟩]) :
    ∃ n, 1 ≤ n ∧ n ≤ b ∧ Reported key r n := by
  have hbounds := hsplit.covering.bounds f hf
  have hbit : ∀ high : Nat,
      0 < (fillBitmapRange 0 high (fun _ => 0) 8 0).2.2 ∧
        bitSet (fillBitmapRange 0 high (fun _ => 0) 8 0).2.1 0 = true := by
    intro high
    rw [fillBitmapRange_eq (by decide) (by unfold clampTo; omega)]
    exact ⟨Nat.succ_pos _, by
      rw [filledArray_bits (Nat.zero_le _) (le_refl _) (.inl (by decide))]
      simp⟩
  unfold Reported
  by_cases hfirst : f.first = 1
  · -- Not all of the sample is one fragment.
    have hlast : f.second < b := by
      by_contra hge
      obtain ⟨g, hg, hne⟩ : ∃ g ∈ frags, g ≠ f := by
        by_contra hall
        push Not at hall
        have hlength := (List.subperm_of_subset (split_nodup hsplit) fun g hg =>
          List.mem_singleton.mpr (hall g hg)).length_le
        have := hsplit.many
        rw [List.length_singleton] at hlength
        omega
      have hgbounds := hsplit.covering.bounds g hg
      exact hne (eq_of_shared hsplit hg hf (n := g.first) (by omega) (by omega))
    have hbase : (toULong ((toULong f.second : Int) + 1) : Int) = f.second + 1 := by
      rw [toULong_eq (v := f.second) (by omega) (by omega), toULong_eq (by omega) (by omega)]
    have heq : r.getGaps key (fun _ => 0) 8 0 = (toULong ((toULong f.second : Int) + 1),
        (fillBitmapRange 0 0 (fun _ => 0) 8 0).2) := by
      simp [Reassembly.getGaps, hlookup, hfirst]
    rw [heq]
    exact ⟨f.second + 1, by omega, by omega, 0, (hbit 0).1, (hbit 0).2, by simp [hbase]⟩
  · have heq : r.getGaps key (fun _ => 0) 8 0 = (1,
        (fillBitmapRange 0 (toULong ((toULong f.first : Int) - 2)) (fun _ => 0) 8 0).2) := by
      simp [Reassembly.getGaps, hlookup, hfirst, gapsLoop]
    rw [heq]
    exact ⟨1, by omega, by omega, 0, (hbit _).1, (hbit _).2, rfl⟩

/-- If a fragment comes again, before or after the sample is whole, the calls do not work as
without it. -/
theorem again_not_tolerated (hsplit : Split key 1 b frags) (hlarge : b < 2 ^ 32)
    (hgone : Gone key r) (hsub : ∀ f ∈ calls, f ∈ frags) (hall : ∀ f ∈ frags, f ∈ calls)
    (hagain : ¬ calls.Nodup) : ¬ Tolerates key frags r calls := by
  intro htolerates
  have hne : frags ≠ [] := by
    intro hnil
    have := hsplit.many
    rw [hnil] at this
    simp at this
  obtain ⟨before, f, after, rfl, hcompletes⟩ := exists_completes hne hall
  have hsub' : ∀ g ∈ before, g ∈ frags := fun g hg => hsub g (List.mem_append_left _ hg)
  have hf : f ∈ frags := hsub f (by simp)
  have hkey := hsplit.key f hf
  obtain ⟨data, hdata, -⟩ := htolerates.delivered before f after rfl hcompletes
  have hheld := held_afterAll hsplit hgone hsub'
  cases after with
  | nil =>
    -- The ranges have more numbers than the one that came back.
    have hsilent : ∀ before' g after', before = before' ++ g :: after' →
        (arrive (afterAll r before') g).1 = none := by
      intro before' g after' heq
      refine htolerates.otherwise before' g (after' ++ [f]) (by rw [heq, List.append_assoc]; rfl) ?_
      rintro ⟨hseen, -⟩
      obtain ⟨h, hh, hmissing⟩ := hcompletes.2
      have hmem := hseen h hh
      apply hmissing
      rw [heq]
      simp only [List.mem_append, List.mem_cons, List.not_mem_nil, or_false] at hmem ⊢
      exact hmem.imp_right Or.inl
    have hsolid := solid_of_delivered hsplit hgone hsub' hf hdata
    have hcounted := counted_afterAll hsplit hgone hsolid hsub' hsilent
    have hmore := width_of_again hsplit hsub hall hagain
    rw [List.map_append, List.sum_append, List.map_singleton, List.sum_singleton] at hmore
    have hheld' := hheld
    rw [← hkey] at hheld'
    obtain ⟨flist, front, hlookup, hends, -, -, -, hfirst, hlast⟩ :=
      hheld'.ends (genuine_of_mem hsplit hf) hdata
    rw [hkey] at hlookup
    have hbefore : before ≠ [] := by
      intro hnil
      rw [hcounted.absent hnil] at hlookup
      cases hlookup
    obtain ⟨flist', hlookup', hfull, hwidth⟩ := hcounted.kept hbefore
    rw [hlookup] at hlookup'
    cases hlookup'
    have hwidth' := (insert_again hsplit hf (hsolid f hf) (hheld.sound flist hlookup) hfull).2
    rw [hends.1, hwidth, List.map_singleton, List.sum_singleton, FragRange.width, hfirst, hlast] at hwidth'
    change b - 1 + 1 = _ at hwidth'
    omega
  | cons g rest =>
    -- The sample is gone, and the next fragment starts it anew.
    have hg : g ∈ frags := hsub g (by simp)
    have hgkey := hsplit.key g hg
    have hnone : (arrive (afterAll r before) f).2.fragments.lookup g.data.key = none := by
      rw [hgkey, ← hkey]
      cases hlookup : (afterAll r before).fragments.lookup f.data.key with
      | none =>
        rw [(arrive_new hlookup).1] at hdata
        cases hdata
      | some flist =>
        obtain ⟨-, hnone, -⟩ | ⟨front, -, -, hgone', -⟩ := arrive_same hlookup
        · rw [hnone] at hdata
          cases hdata
        · exact hgone'
    have hstate : afterAll r (before ++ [f, g]) = (arrive (arrive (afterAll r before) f).2 g).2 := by
      simp [afterAll]
    have hlookup := (arrive_new hnone).2.2
    rw [hgkey, ← hstate] at hlookup
    obtain ⟨n, hlow, hhigh, hreported⟩ := exists_reported hsplit hlarge hg hlookup
    obtain ⟨h, hh, hin⟩ := covers_all hsplit.covering hlow hhigh
    refine htolerates.gaps (before ++ [f, g]) rest (by simp) h ?_ n hreported hin
    have hseen := hcompletes.1 h hh
    simp only [List.mem_append, List.mem_cons, List.not_mem_nil, or_false] at hseen ⊢
    exact hseen.imp_right Or.inl

end

section

def fragmentOne : Fragment := ⟨1, 1, true, ⟨headerOf 1 true 1, some [10]⟩⟩

def fragmentTwo : Fragment := ⟨2, 2, false, ⟨headerOf 1 false 1, some [11]⟩⟩

theorem split_two : Split (keyOf 1) 1 2 [fragmentOne, fragmentTwo] := by
  refine ⟨by decide, ⟨rfl, by decide, rfl, by decide, rfl⟩, ?_, ?_, ?_⟩ <;>
    simp [fragmentOne, fragmentTwo, headerOf, keyOf, ReceivedDataSample.key, create]

/-- The first fragment comes again after the sample is whole. -/
theorem again_not_tolerated_late :
    ¬ Tolerates (keyOf 1) [fragmentOne, fragmentTwo] ⟨[], []⟩ [fragmentOne, fragmentTwo, fragmentOne] := by
  apply again_not_tolerated split_two (by decide) ⟨rfl, List.not_mem_nil⟩
  · simp
  · simp
  · simp

/-- The first fragment comes twice, then the second one: the sample does not come back. -/
theorem first_fragment_again : ¬ ∀ (key : FragKey) (b : Int) (frags calls : List Fragment),
    Split key 1 b frags → b < 2 ^ 32 → (∀ f ∈ frags, f.data.sample ≠ none) →
      (∀ f ∈ calls, f ∈ frags) → (∀ f ∈ frags, f ∈ calls) → Tolerates key frags ⟨[], []⟩ calls := by
  intro claim
  have htolerates := claim (keyOf 1) 2 [fragmentOne, fragmentTwo] [fragmentOne, fragmentOne, fragmentTwo]
    split_two (by decide) (by simp [fragmentOne, fragmentTwo]) (by simp) (by simp)
  obtain ⟨data, hdata, -⟩ := htolerates.delivered [fragmentOne, fragmentOne] fragmentTwo [] rfl
    ⟨by simp, fragmentTwo, by simp, by simp [fragmentOne, fragmentTwo]⟩
  have hlost : ((arrive (afterAll ⟨[], []⟩ [fragmentOne, fragmentOne]) fragmentTwo).1).isNone = true := by
    decide +kernel
  rw [hdata] at hlost
  cases hlost

end

end OpenDDS.Guarantees.DuplicateFragments
