import Mathlib.Algebra.Order.BigOperators.Group.List
import Mathlib.Data.BitVec
import OpenDDS.Source.TransportReassembly

/-!
# Fragments in any order

The list that is kept for a sample holds one element for each maximal run of ranges that have
arrived: `Joined` says what an element stands for, and one lemma about two neighbours that touch
covers the three places where `insert` joins. A range without payload takes away the payload of
all that is joined with it, so that such a sample does not come back.
-/
namespace OpenDDS.Guarantees.FragmentReassembly

open Library Source Source.DataSampleHeader Source.TransportReassembly

/-- An argument of `reassemble_i`. -/
structure Fragment where
  first : Int
  second : Int
  firstFrag : Bool
  data : ReceivedDataSample

abbrev Fragment.header (f : Fragment) : Header := f.data.header

def payload (f : Fragment) : List (BitVec 8) := f.data.sample.getD []

def width (f : Fragment) : Int := f.second - f.first + 1

/-- Contiguous ranges from `a` to `b`. -/
def Covering (a b : Int) : List Fragment → Prop
  | [] => a = b + 1
  | f :: rest => f.first = a ∧ f.first ≤ f.second ∧ Covering (f.second + 1) b rest

structure Split (key : FragKey) (a b : Int) (frags : List Fragment) : Prop where
  many : 2 ≤ frags.length
  covering : Covering a b frags
  key : ∀ f ∈ frags, f.data.key = key
  more : ∀ f ∈ frags, f.header.moreFragments = decide (f.second ≠ b)
  first : ∀ f ∈ frags, f.firstFrag = decide (f.first = a)

/-- Each fragment has a payload, and its entries are read: only those of the last one are
without the flag. -/
structure Whole (frags : List Fragment) : Prop where
  payload : ∀ f ∈ frags, f.data.sample ≠ none
  entries : ∀ f ∈ frags, f.header.moreFragments = true → f.header.contentFilter = false →
    f.header.contentFilterEntries = []

section

variable {a b : Int} {frags : List Fragment}

theorem Covering.width (h : Covering a b frags) : (frags.map width).sum = b - a + 1 := by
  induction frags generalizing a with
  | nil =>
    change a = b + 1 at h
    rw [List.map_nil, List.sum_nil]
    omega
  | cons f rest ih =>
    obtain ⟨hfirst, -, hrest⟩ := h
    rw [List.map_cons, List.sum_cons, ih hrest, FragmentReassembly.width]
    omega

theorem Covering.bounds (h : Covering a b frags) :
    ∀ f ∈ frags, a ≤ f.first ∧ f.first ≤ f.second ∧ f.second ≤ b := by
  have hle : ∀ (frags : List Fragment) (a : Int), Covering a b frags → a ≤ b + 1 := by
    intro frags
    induction frags with
    | nil => exact fun a h => le_of_eq h
    | cons f rest ih =>
      intro a ⟨hfirst, hle, hrest⟩
      have := ih _ hrest
      omega
  induction frags generalizing a with
  | nil => exact fun f hf => absurd hf List.not_mem_nil
  | cons f rest ih =>
    obtain ⟨hfirst, hrange, hrest⟩ := h
    intro f' hf'
    obtain rfl | hf' := List.mem_cons.mp hf'
    · have := hle rest _ hrest
      exact ⟨le_of_eq hfirst.symm, hrange, by omega⟩
    · have := ih hrest f' hf'
      exact ⟨by omega, this.2⟩

def Ascending (frags : List Fragment) : Prop :=
  frags.Pairwise fun f g => f.second < g.first

theorem Covering.ascending (h : Covering a b frags) : Ascending frags := by
  induction frags generalizing a with
  | nil => exact List.Pairwise.nil
  | cons f rest ih =>
    obtain ⟨-, -, hrest⟩ := h
    refine List.Pairwise.cons (fun g hg => ?_) (ih hrest)
    have := (hrest.bounds g hg).1
    omega

theorem Ascending.eq_of_perm {frags' : List Fragment} (h : Ascending frags)
    (hperm : frags'.Perm frags) (hranges : ∀ f ∈ frags, f.first ≤ f.second) (h' : Ascending frags') :
    frags' = frags := by
  apply hperm.eq_of_pairwise _ h' h
  intro f g hf hg hlt hgt
  have := hranges f (hperm.mem_iff.mp hf)
  have := hranges g hg
  omega

end

section

variable {key : FragKey} {a b : Int} {g g' : List Fragment} {fr fr' : FragRange}

/-- An element of the list stands for the fragments of `g`. -/
structure Joined (key : FragKey) (a b : Int) (g : List Fragment) (fr : FragRange) : Prop where
  range : fr.first ≤ fr.second ∧ fr.second ≤ b
  low : a ≤ fr.first
  within : ∀ f ∈ g, fr.first ≤ f.first ∧ f.second ≤ fr.second
  covers : ∀ n, fr.first ≤ n → n ≤ fr.second → ∃ f ∈ g, f.first ≤ n ∧ n ≤ f.second
  width : (g.map width).sum = fr.second - fr.first + 1
  ascending : Ascending g
  key : fr.recDs.key = key
  more : fr.recDs.header.moreFragments = decide (fr.second ≠ b)
  sample : fr.recDs.sample = some (g.flatMap payload)
  length : fr.recDs.header.messageLength = (g.map fun f => f.header.messageLength).sum
  entries : fr.recDs.header.contentFilterEntries.Perm
    (g.flatMap fun f => f.header.contentFilterEntries)
  flagged : fr.recDs.header.moreFragments = true → fr.recDs.header.contentFilter = false →
    fr.recDs.header.contentFilterEntries = []

theorem Joined.append (h : Joined key a b g fr) (h' : Joined key a b g' fr')
    (htouch : fr.second + 1 = fr'.first) :
    ∃ joined, join fr.recDs.header fr'.recDs.header = some joined ∧
      Joined key a b (g ++ g')
        ⟨fr.first, fr'.second, ⟨joined, chain fr.recDs.sample fr'.recDs.sample⟩⟩ := by
  have hrange := h.range
  have hrange' := h'.range
  have hmore : fr.recDs.header.moreFragments = true := by
    rw [h.more, decide_eq_true_eq]
    omega
  have hkeys : fr.recDs.key = fr'.recDs.key := h.key.trans h'.key.symm
  have hseq : (fr.recDs.header.sequenceHigh, fr.recDs.header.sequenceLow) =
      (fr'.recDs.header.sequenceHigh, fr'.recDs.header.sequenceLow) :=
    congrArg (fun key : FragKey => (key.sequenceHigh, key.sequenceLow)) hkeys
  obtain ⟨joined, hjoin, hkey, hsame, hlength, hflag, hentries⟩ := join_spec hmore hseq
  refine ⟨joined, hjoin, ⟨show fr.first ≤ fr'.second by omega, hrange'.2⟩, h.low, ?_, ?_, ?_, ?_, ?_,
    ?_, ?_, ?_, ?_, ?_⟩
  · intro f hf
    rcases List.mem_append.mp hf with hf | hf
    · have := h.within f hf
      exact ⟨this.1, show f.second ≤ fr'.second by omega⟩
    · have := h'.within f hf
      exact ⟨show fr.first ≤ f.first by omega, this.2⟩
  · intro n hfirst hsecond
    by_cases hn : n ≤ fr.second
    · obtain ⟨f, hf, hin⟩ := h.covers n hfirst hn
      exact ⟨f, List.mem_append_left _ hf, hin⟩
    · obtain ⟨f, hf, hin⟩ := h'.covers n (by omega) hsecond
      exact ⟨f, List.mem_append_right _ hf, hin⟩
  · rw [List.map_append, List.sum_append, h.width, h'.width]
    change _ = fr'.second - fr.first + 1
    omega
  · rw [Ascending, List.pairwise_append]
    refine ⟨h.ascending, h'.ascending, fun f hf f' hf' => ?_⟩
    have := (h.within f hf).2
    have := (h'.within f' hf').1
    omega
  · exact hkey.trans h'.key
  · exact hsame.trans h'.more
  · rw [h.sample, h'.sample, List.flatMap_append]
    rfl
  · rw [hlength, h.length, h'.length, List.map_append, List.sum_append, BitVec.add_comm]
  · rw [hentries, List.flatMap_append]
    refine (h'.entries.append ?_).trans List.perm_append_comm
    cases hcontent : fr.recDs.header.contentFilter with
    | true => exact (List.reverse_perm _).trans h.entries
    | false =>
      -- Without the flag there is nothing to lose.
      have hnil := h.flagged hmore hcontent
      have hperm := h.entries
      rw [hnil] at hperm
      exact hperm
  · intro hmore' hnot
    rw [hflag, Bool.or_eq_false_iff] at hnot
    rw [hentries, hnot.2, h'.flagged (hsame.symm.trans hmore') hnot.1]
    rfl

theorem Joined.expectMore (h : Joined key a b g fr) : expectMore fr = fr := by
  unfold Source.TransportReassembly.expectMore
  rw [h.sample]

end

section

variable {key : FragKey} {a b : Int} {groups : List (List Fragment)} {flist : List FragRange}
  {g : List Fragment} {fr : FragRange} {f : Fragment}

structure Kept (key : FragKey) (a b : Int) (groups : List (List Fragment)) (flist : List FragRange) :
    Prop where
  joined : List.Forall₂ (Joined key a b) groups flist
  apart : flist.Pairwise fun fr fr' => fr.second + 1 < fr'.first

theorem Kept.cons (h : Kept key a b groups flist) (hg : Joined key a b g fr)
    (hapart : ∀ fr' ∈ flist, fr.second + 1 < fr'.first) : Kept key a b (g :: groups) (fr :: flist) :=
  ⟨List.Forall₂.cons hg h.joined, List.Pairwise.cons hapart h.apart⟩

theorem Kept.tail (h : Kept key a b (g :: groups) (fr :: flist)) : Kept key a b groups flist :=
  ⟨(List.forall₂_cons.mp h.joined).2, (List.pairwise_cons.mp h.apart).2⟩

theorem Kept.head (h : Kept key a b (g :: groups) (fr :: flist)) : Joined key a b g fr :=
  (List.forall₂_cons.mp h.joined).1

theorem Kept.of_mem (h : Kept key a b groups flist) (hfr : fr ∈ flist) :
    ∃ g ∈ groups, Joined key a b g fr := by
  obtain ⟨i, hi, rfl⟩ := List.mem_iff_getElem.mp hfr
  have hlength := h.joined.length_eq
  exact ⟨groups[i], List.getElem_mem _, h.joined.get (by omega) hi⟩

/-- The list after a fragment is put in; nothing comes closer to what stands in front. -/
structure Inserted (key : FragKey) (a b : Int) (f : Fragment) (groups : List (List Fragment))
    (flist : List FragRange) (result : Bool × List FragRange) : Prop where
  inserted : result.1 = true
  kept : ∃ groups', Kept key a b groups' result.2 ∧ groups'.flatten.Perm (f :: groups.flatten)
  after : ∀ n, n < f.first → (∀ fr ∈ flist, n < fr.first) → ∀ fr ∈ result.2, n < fr.first

theorem coalesce_spec (hg : Joined key a b g fr) (h : Kept key a b groups flist)
    (hbefore : ∀ it ∈ flist, fr.second < it.first) :
    (coalesce (fr.second + 1) fr flist).1 = true ∧
      (∃ groups', Kept key a b groups' (coalesce (fr.second + 1) fr flist).2 ∧
        groups'.flatten.Perm (g ++ groups.flatten)) ∧
      ∀ n, n < fr.first → (∀ it ∈ flist, n < it.first) →
        ∀ it ∈ (coalesce (fr.second + 1) fr flist).2, n < it.first := by
  cases flist with
  | nil =>
    cases h.joined
    refine ⟨rfl, ⟨[g], h.cons hg (by simp), by simp⟩, ?_⟩
    intro n hn _ it hit
    rw [List.mem_singleton.mp hit]
    exact hn
  | cons it rest =>
    cases groups with
    | nil => cases h.joined
    | cons g' groups =>
      have hit := h.head
      have hrest := (List.pairwise_cons.mp h.apart).1
      by_cases htouch : fr.second + 1 = it.first
      · obtain ⟨joined, hjoin, happend⟩ := hg.append hit htouch
        rw [hg.sample, hit.sample] at happend
        have heq : coalesce (fr.second + 1) fr (it :: rest) = (true, ⟨fr.first, it.second,
            ⟨joined, some (g.flatMap payload ++ g'.flatMap payload)⟩⟩ :: rest) := by
          simp only [coalesce, if_pos htouch, hg.expectMore, hjoin, hg.sample, hit.sample]
        rw [heq]
        refine ⟨rfl, ⟨(g ++ g') :: groups, h.tail.cons happend hrest, by simp⟩, ?_⟩
        intro n hn hall it' hit'
        obtain rfl | hit' := List.mem_cons.mp hit'
        · exact hn
        · exact hall it' (List.mem_cons_of_mem _ hit')
      · have heq : coalesce (fr.second + 1) fr (it :: rest) = (true, fr :: it :: rest) := by
          simp only [coalesce, if_neg htouch]
        rw [heq]
        have hlt := hbefore it List.mem_cons_self
        refine ⟨rfl, ⟨g :: g' :: groups, h.cons hg fun fr' hfr' => ?_, by simp⟩, ?_⟩
        · obtain rfl | hfr' := List.mem_cons.mp hfr'
          · omega
          · have := hrest fr' hfr'
            have := hit.range.1
            omega
        · intro n hn hall it' hit'
          obtain rfl | hit' := List.mem_cons.mp hit'
          · exact hn
          · exact hall it' hit'

theorem insert_spec (hlarge : b < SequenceNumber.maxValue) (h : Kept key a b groups flist)
    (hf : Joined key a b [f] ⟨f.first, f.second, f.data⟩)
    (hapart : ∀ fr ∈ flist, f.second < fr.first ∨ fr.second < f.first) :
    Inserted key a b f groups flist (TransportReassembly.insert f.first f.second f.data flist) := by
  induction flist generalizing groups with
  | nil =>
    cases h.joined
    refine ⟨rfl, ⟨[[f]], h.cons hf (by simp), by simp⟩, ?_⟩
    intro n hn _ fr hfr
    rw [List.mem_singleton.mp hfr]
    exact hn
  | cons fr rest ih =>
    cases groups with
    | nil => cases h.joined
    | cons g groups =>
      have hhead := h.head
      have hrest := (List.pairwise_cons.mp h.apart).1
      have hrange := hhead.range.1
      have hside := hapart fr List.mem_cons_self
      have hsecond : f.second ≤ b := hf.range.2
      have hsmall : f.second ≠ SequenceNumber.maxValue := by omega
      by_cases hbefore : f.second + 1 < fr.first
      · have heq : TransportReassembly.insert f.first f.second f.data (fr :: rest) =
            (true, ⟨f.first, f.second, f.data⟩ :: fr :: rest) := by
          simp only [TransportReassembly.insert, hsmall, false_or, if_pos hbefore]
        rw [heq]
        refine ⟨rfl, ⟨[f] :: g :: groups, h.cons hf fun fr' hfr' => ?_, by simp⟩, ?_⟩
        · obtain rfl | hfr' := List.mem_cons.mp hfr'
          · exact hbefore
          · have := hrest fr' hfr'
            exact show f.second + 1 < fr'.first by omega
        · intro n hn hall fr' hfr'
          obtain rfl | hfr' := List.mem_cons.mp hfr'
          · exact hn
          · exact hall fr' hfr'
      by_cases hleft : f.second + 1 = fr.first
      · obtain ⟨joined, hjoin, happend⟩ := hf.append hhead hleft
        have heq : TransportReassembly.insert f.first f.second f.data (fr :: rest) = (true, ⟨f.first, fr.second,
            ⟨joined, chain f.data.sample fr.recDs.sample⟩⟩ :: rest) := by
          simp only [TransportReassembly.insert, hsmall, false_or, if_neg hbefore, if_pos hleft, hjoin]
        rw [heq]
        refine ⟨rfl, ⟨([f] ++ g) :: groups, h.tail.cons happend hrest, by simp⟩, ?_⟩
        intro n hn hall fr' hfr'
        obtain rfl | hfr' := List.mem_cons.mp hfr'
        · exact hn
        · exact hall fr' (List.mem_cons_of_mem _ hfr')
      by_cases hright : f.first - 1 = fr.second
      · obtain ⟨joined, hjoin, happend⟩ := hhead.append hf (show fr.second + 1 = f.first by omega)
        have heq : TransportReassembly.insert f.first f.second f.data (fr :: rest) = coalesce (f.second + 1)
            ⟨fr.first, f.second, ⟨joined, chain fr.recDs.sample f.data.sample⟩⟩ rest := by
          simp only [TransportReassembly.insert, hsmall, false_or, if_neg hbefore, if_neg hleft,
            if_pos hright, hhead.expectMore, hjoin]
        rw [heq]
        have hbeyond : ∀ it ∈ rest, f.second < it.first := by
          intro it hit
          have := hrest it hit
          have := hapart it (List.mem_cons_of_mem _ hit)
          obtain ⟨g', -, hg'⟩ := h.tail.of_mem hit
          have := hg'.range.1
          omega
        obtain ⟨hok, ⟨groups', hkept, hperm⟩, hafter⟩ := coalesce_spec happend h.tail hbeyond
        refine ⟨hok, ⟨groups', hkept, hperm.trans ?_⟩, ?_⟩
        · rw [List.flatten_cons, List.append_assoc]
          exact List.perm_middle
        · intro n hn hall
          exact hafter n (hall fr List.mem_cons_self) fun it hit => hall it (List.mem_cons_of_mem _ hit)
      · -- The fragment lies beyond this element.
        have hbeyond : fr.second + 1 < f.first := by omega
        obtain ⟨hok, ⟨groups', hkept, hperm⟩, hafter⟩ :=
          ih h.tail fun fr' hfr' => hapart fr' (List.mem_cons_of_mem _ hfr')
        have heq : TransportReassembly.insert f.first f.second f.data (fr :: rest) =
            ((TransportReassembly.insert f.first f.second f.data rest).1, fr :: (TransportReassembly.insert f.first f.second f.data rest).2) := by
          simp only [TransportReassembly.insert, hsmall, false_or, if_neg hbefore, if_neg hleft,
            if_neg hright]
        rw [heq]
        refine ⟨hok, ⟨g :: groups', hkept.cons hhead (hafter _ hbeyond hrest), ?_⟩, ?_⟩
        · exact (hperm.append_left g).trans List.perm_middle
        · intro n hn hall fr' hfr'
          obtain rfl | hfr' := List.mem_cons.mp hfr'
          · exact hall fr' List.mem_cons_self
          · exact hafter n hn (fun it hit => hall it (List.mem_cons_of_mem _ hit)) fr' hfr'

end

section

variable {key : FragKey} {a b : Int} {frags arrived missing : List Fragment} {f : Fragment}
  {r : Reassembly}

/-- A call of `reassemble_i`. -/
def arrive (r : Reassembly) (f : Fragment) : Option ReceivedDataSample × Reassembly :=
  r.reassembleI f.first f.second f.firstFrag f.data

structure Pending (key : FragKey) (a b : Int) (arrived : List Fragment) (r : Reassembly) : Prop where
  absent : arrived = [] → r.fragments.lookup key = none
  kept : arrived ≠ [] → ∃ flist groups, r.fragments.lookup key = some flist ∧
    Kept key a b groups flist ∧ groups.flatten.Perm arrived
  first : key ∈ r.haveFirst ↔ ∃ f ∈ arrived, f.firstFrag = true

theorem single (hsplit : Split key a b frags) (hwhole : Whole frags) (hf : f ∈ frags) :
    Joined key a b [f] ⟨f.first, f.second, f.data⟩ := by
  have hbounds := hsplit.covering.bounds f hf
  obtain ⟨bytes, hbytes⟩ := Option.ne_none_iff_exists'.mp (hwhole.payload f hf)
  refine ⟨hbounds.2, hbounds.1, ?_, fun n hfirst hsecond => ⟨f, List.mem_cons_self, hfirst, hsecond⟩,
    ?_, List.pairwise_singleton _ _, hsplit.key f hf, hsplit.more f hf, ?_, ?_, ?_,
    hwhole.entries f hf⟩
  · intro f' hf'
    rw [List.mem_singleton.mp hf']
    exact ⟨le_refl _, le_refl _⟩
  · simp [width]
  · simp [payload, hbytes]
  · simp
  · simp

theorem Split.disjoint (hsplit : Split key a b frags) (hperm : (arrived ++ missing).Perm frags) :
    ∀ f ∈ arrived, ∀ g ∈ missing, f.second < g.first ∨ g.second < f.first := by
  have hpairs : (arrived ++ missing).Pairwise fun f g => f.second < g.first ∨ g.second < f.first :=
    (hsplit.covering.ascending.imp Or.inl).perm hperm.symm Or.symm
  exact (List.pairwise_append.mp hpairs).2.2

theorem Kept.room {groups : List (List Fragment)} {flist : List FragRange} {n : Int}
    (h : Kept key a b groups flist) (hn : ∀ fr ∈ flist, n ≤ fr.first) (hle : n ≤ b + 1) :
    (groups.flatten.map width).sum + flist.length ≤ b - n + 2 := by
  induction flist generalizing groups n with
  | nil =>
    cases h.joined
    simp
    omega
  | cons fr rest ih =>
    cases groups with
    | nil => cases h.joined
    | cons g groups =>
      have hhead := h.head
      have hrange := hhead.range
      have hfirst := hn fr List.mem_cons_self
      cases rest with
      | nil =>
        cases h.tail.joined
        simp only [List.flatten_cons, List.flatten_nil, List.append_nil, hhead.width,
          List.length_singleton, Nat.cast_one]
        omega
      | cons fr' rest =>
        have hrest := (List.pairwise_cons.mp h.apart).1
        have hlt := hrest fr' List.mem_cons_self
        obtain ⟨g', -, hg'⟩ := h.tail.of_mem List.mem_cons_self
        have hrange' := hg'.range
        have hroom := ih h.tail (fun it hit => hrest it hit) (by omega)
        rw [List.flatten_cons, List.map_append, List.sum_append, hhead.width, List.length_cons]
        omega

/-- `have_first_` in the middle of a call. -/
def firstAfter (r : Reassembly) (f : Fragment) : List FragKey :=
  if f.firstFrag then addFirst f.data.key r.haveFirst else r.haveFirst

theorem mem_firstAfter :
    key ∈ firstAfter r f ↔ (f.firstFrag = true ∧ key = f.data.key) ∨ key ∈ r.haveFirst := by
  unfold firstAfter
  split_ifs with hfirst
  · rw [mem_addFirst]
    simp [hfirst]
  · simp [hfirst]

theorem arrive_eq : arrive r f =
    match r.fragments.lookup f.data.key with
    | none => (none, ⟨r.fragments ++ [(f.data.key, [⟨f.first, f.second, f.data⟩])], firstAfter r f⟩)
    | some flist =>
      match TransportReassembly.insert f.first f.second f.data flist with
      | (false, flist) => (none, ⟨store f.data.key flist r.fragments, firstAfter r f⟩)
      | (true, flist) =>
        match flist with
        | [front] =>
          if f.data.key ∈ firstAfter r f ∧ front.recDs.header.moreFragments = false then
            (if front.recDs.sample.isSome then some front.recDs else none,
              ⟨r.fragments.filter fun entry => entry.1 ≠ f.data.key,
                (firstAfter r f).filter (· ≠ f.data.key)⟩)
          else (none, ⟨store f.data.key flist r.fragments, firstAfter r f⟩)
        | _ => (none, ⟨store f.data.key flist r.fragments, firstAfter r f⟩) :=
  rfl

theorem arrive_other (hother : f.data.key ≠ key) :
    (arrive r f).2.fragments.lookup key = r.fragments.lookup key ∧
      (key ∈ (arrive r f).2.haveFirst ↔ key ∈ r.haveFirst) := by
  have hfirst : key ∈ firstAfter r f ↔ key ∈ r.haveFirst := by
    rw [mem_firstAfter]
    simp [Ne.symm hother]
  have hstore : ∀ flist, (store f.data.key flist r.fragments).lookup key = r.fragments.lookup key := by
    intro flist
    unfold store
    rw [AssociationList.lookup_replace, if_neg (Ne.symm hother)]
  rw [arrive_eq]
  generalize firstAfter r f = haveFirst at hfirst
  cases habsent : r.fragments.lookup f.data.key with
  | none =>
    rw [AssociationList.lookup_concat habsent, if_neg (Ne.symm hother)]
    exact ⟨rfl, hfirst⟩
  | some flist =>
    simp only
    split
    · exact ⟨hstore _, hfirst⟩
    · split
      · split
        · rw [AssociationList.lookup_erase, if_neg (Ne.symm hother), List.mem_filter]
          refine ⟨rfl, (and_iff_left ?_).trans hfirst⟩
          simpa using Ne.symm hother
        · exact ⟨hstore _, hfirst⟩
      · exact ⟨hstore _, hfirst⟩

theorem arrive_new (hlookup : r.fragments.lookup f.data.key = none) :
    (arrive r f).1 = none ∧ (arrive r f).2.haveFirst = firstAfter r f ∧
      (arrive r f).2.fragments.lookup f.data.key = some [⟨f.first, f.second, f.data⟩] := by
  rw [arrive_eq]
  generalize firstAfter r f = haveFirst
  simp only [hlookup]
  refine ⟨trivial, trivial, ?_⟩
  rw [AssociationList.lookup_concat hlookup, if_pos rfl]

/-- The list of a sample is one range, from its first fragment to its last. -/
def Ends (r : Reassembly) (f : Fragment) (flist : List FragRange) (front : FragRange) : Prop :=
  TransportReassembly.insert f.first f.second f.data flist = (true, [front]) ∧
    f.data.key ∈ firstAfter r f ∧ front.recDs.header.moreFragments = false

theorem arrive_same {flist : List FragRange} (hlookup : r.fragments.lookup f.data.key = some flist) :
    ((∀ front, ¬ Ends r f flist front) ∧ (arrive r f).1 = none ∧
      (arrive r f).2.haveFirst = firstAfter r f ∧
      (arrive r f).2.fragments.lookup f.data.key =
        some (TransportReassembly.insert f.first f.second f.data flist).2) ∨
    ∃ front, Ends r f flist front ∧
      (arrive r f).1 = (if front.recDs.sample.isSome then some front.recDs else none) ∧
      (arrive r f).2.fragments.lookup f.data.key = none ∧
      f.data.key ∉ (arrive r f).2.haveFirst := by
  have hstore : ∀ flist', (store f.data.key flist' r.fragments).lookup f.data.key = some flist' := by
    intro flist'
    unfold store
    rw [AssociationList.lookup_replace, if_pos rfl, hlookup]
    rfl
  unfold Ends
  rw [arrive_eq]
  generalize firstAfter r f = haveFirst
  simp only [hlookup]
  generalize TransportReassembly.insert f.first f.second f.data flist = result
  obtain ⟨inserted, flist'⟩ := result
  match inserted, flist' with
  | false, flist' => exact .inl ⟨by simp, rfl, rfl, hstore flist'⟩
  | true, [front] =>
    by_cases hwhole : f.data.key ∈ haveFirst ∧ front.recDs.header.moreFragments = false
    · simp only [if_pos hwhole]
      refine .inr ⟨front, ⟨rfl, hwhole⟩, rfl, ?_, ?_⟩
      · rw [AssociationList.lookup_erase, if_pos rfl]
      · simp
    · simp only [if_neg hwhole]
      refine .inl ⟨?_, trivial, trivial, hstore [front]⟩
      rintro front' ⟨heq, hboth⟩
      cases heq
      exact hwhole hboth
  | true, [] => exact .inl ⟨by simp, rfl, rfl, hstore []⟩
  | true, fr :: fr' :: rest => exact .inl ⟨by simp, rfl, rfl, hstore (fr :: fr' :: rest)⟩

theorem Pending.other (h : Pending key a b arrived r) (hother : f.data.key ≠ key) :
    Pending key a b arrived (arrive r f).2 := by
  obtain ⟨hlookup, hfirst⟩ := arrive_other (r := r) hother
  refine ⟨?_, ?_, hfirst.trans h.first⟩
  · rw [hlookup]
    exact h.absent
  · rw [hlookup]
    exact h.kept

/-- Nothing is left of the sample. -/
def Gone (key : FragKey) (r : Reassembly) : Prop :=
  r.fragments.lookup key = none ∧ key ∉ r.haveFirst

structure Complete (frags : List Fragment) (data : ReceivedDataSample) : Prop where
  sample : data.sample = some (frags.flatMap payload)
  length : data.header.messageLength = (frags.map fun f => f.header.messageLength).sum
  entries : data.header.contentFilterEntries.Perm (frags.flatMap fun f => f.header.contentFilterEntries)

theorem Pending.first_step (h : Pending key a b arrived r) (hkey : f.data.key = key) :
    key ∈ firstAfter r f ↔ ∃ g ∈ arrived ++ [f], g.firstFrag = true := by
  rw [mem_firstAfter, h.first]
  simp only [List.mem_append, List.mem_singleton, hkey, and_true]
  constructor
  · rintro (hf | ⟨g, hg, hfirst⟩)
    · exact ⟨f, .inr rfl, hf⟩
    · exact ⟨g, .inl hg, hfirst⟩
  · rintro ⟨g, hg | rfl, hfirst⟩
    · exact .inr ⟨g, hg, hfirst⟩
    · exact .inl hfirst

theorem whole_iff {groups : List (List Fragment)} {flist : List FragRange}
    (hsplit : Split key a b frags) (hperm : (arrived ++ missing).Perm frags)
    (hkept : Kept key a b groups flist) (harrived : groups.flatten.Perm arrived) :
    (∃ front, flist = [front] ∧ (∃ f ∈ arrived, f.firstFrag = true) ∧
      front.recDs.header.moreFragments = false) ↔ missing = [] := by
  have hwidth : (groups.flatten.map width).sum + (missing.map width).sum = b - a + 1 := by
    rw [(harrived.map width).sum_eq, ← List.sum_append, ← List.map_append,
      (hperm.map width).sum_eq, hsplit.covering.width]
  have hbounds := hsplit.covering.bounds
  constructor
  · rintro ⟨front, rfl, ⟨f, hf, hfirst⟩, hmore⟩
    obtain ⟨g, hgroups⟩ : ∃ g, groups = [g] := List.length_eq_one_iff.mp hkept.joined.length_eq
    rw [hgroups] at hkept harrived hwidth
    have hfront := hkept.head
    rw [List.flatten_singleton] at harrived hwidth
    have hmem : ∀ f ∈ arrived, f ∈ frags := fun f hf => hperm.mem_iff.mp (List.mem_append_left _ hf)
    have hlow := (hfront.within f (harrived.mem_iff.mpr hf)).1
    have hfa : f.first = a := by
      have := hsplit.first f (hmem f hf)
      rw [hfirst] at this
      exact of_decide_eq_true this.symm
    have hend : front.second = b := by
      have := hfront.more
      rw [hmore] at this
      simpa using this.symm
    rw [hfront.width] at hwidth
    -- What is missing would have no numbers.
    cases missing with
    | nil => rfl
    | cons f' rest =>
      have hpos : ∀ rest : List Fragment, (∀ f ∈ rest, f ∈ frags) → 0 ≤ (rest.map width).sum := by
        intro rest hrest
        apply List.sum_nonneg
        intro n hn
        obtain ⟨f, hf, rfl⟩ := List.mem_map.mp hn
        have := hbounds f (hrest f hf)
        unfold width
        omega
      have hmissing : ∀ f ∈ f' :: rest, f ∈ frags := fun f hf =>
        hperm.mem_iff.mp (List.mem_append_right _ hf)
      have hrest := hpos rest fun f hf => hmissing f (List.mem_cons_of_mem _ hf)
      have hf' := hbounds f' (hmissing f' List.mem_cons_self)
      rw [List.map_cons, List.sum_cons, width] at hwidth
      omega
  · rintro rfl
    rw [List.append_nil] at hperm
    rw [List.map_nil, List.sum_nil, add_zero] at hwidth
    have hlow : ∀ fr ∈ flist, a ≤ fr.first := by
      intro fr hfr
      obtain ⟨g, -, hg⟩ := hkept.of_mem hfr
      exact hg.low
    have hab : a ≤ b := by
      cases hfrags : frags with
      | nil => exact absurd hsplit.many (by simp [hfrags])
      | cons f rest =>
        have := hbounds f (by rw [hfrags]; exact List.mem_cons_self)
        omega
    have hroom := hkept.room hlow (by omega)
    match flist, groups, hkept, hroom with
    | [], [], _, _ =>
      rw [List.flatten_nil, List.map_nil, List.sum_nil] at hwidth
      omega
    | [front], [g], hkept, _ =>
      have hfront := hkept.head
      have hrange := hfront.range
      have hlow := hfront.low
      rw [List.flatten_singleton, hfront.width] at hwidth
      refine ⟨front, rfl, ?_, ?_⟩
      · cases hfrags : frags with
        | nil => exact absurd hsplit.many (by simp [hfrags])
        | cons f rest =>
          have hf : f ∈ frags := by rw [hfrags]; exact List.mem_cons_self
          have hfa : f.first = a := by
            have := hsplit.covering
            rw [hfrags] at this
            exact this.1
          exact ⟨f, hperm.mem_iff.mpr hf, by rw [hsplit.first f hf, hfa]; simp⟩
      · rw [hfront.more]
        simp
        omega
    | _ :: _ :: _, _, _, hroom =>
      simp only [List.length_cons] at hroom
      omega
    | [], _ :: _, hkept, _ => cases hkept.joined
    | [_], [], hkept, _ => cases hkept.joined
    | [_], _ :: _ :: _, hkept, _ => cases hkept.tail.joined

theorem arrive_spec (hsplit : Split key a b frags) (hwhole : Whole frags)
    (hlarge : b < SequenceNumber.maxValue) (hpending : Pending key a b arrived r) (hperm : (arrived ++ f :: missing).Perm frags) :
    (missing ≠ [] → (arrive r f).1 = none ∧ Pending key a b (arrived ++ [f]) (arrive r f).2) ∧
    (missing = [] → (∃ data, (arrive r f).1 = some data ∧ Complete frags data) ∧
      Gone key (arrive r f).2) := by
  have hmem : ∀ g ∈ arrived ++ f :: missing, g ∈ frags := fun g hg => hperm.mem_iff.mp hg
  have hf : f ∈ frags := hmem f (by simp)
  have hkey : f.data.key = key := hsplit.key f hf
  have hfirst := hpending.first_step hkey
  have hsingle := single hsplit hwhole hf
  rw [arrive_eq, hkey]
  generalize firstAfter r f = haveFirst at hfirst
  by_cases hnew : arrived = []
  · rw [hpending.absent hnew]
    constructor
    · refine fun _ => ⟨rfl, fun hnil => absurd hnil (by simp), fun _ => ?_, hfirst⟩
      refine ⟨[⟨f.first, f.second, f.data⟩], [[f]], ?_, ⟨by simpa using hsingle, by simp⟩,
        by simp [hnew]⟩
      rw [AssociationList.lookup_concat (hpending.absent hnew), if_pos rfl]
    · intro hnil
      have hlength := hperm.length_eq
      have hmany := hsplit.many
      simp only [hnew, hnil, List.nil_append, List.length_singleton] at hlength
      omega
  · obtain ⟨flist, groups, hlookup, hkept, harrived⟩ := hpending.kept hnew
    -- Ranges of the sample do not overlap.
    have hapart : ∀ fr ∈ flist, f.second < fr.first ∨ fr.second < f.first := by
      intro fr hfr
      obtain ⟨g, hg, hjoined⟩ := hkept.of_mem hfr
      by_contra hnot
      have hrange := hjoined.range.1
      have hfrange := (hsplit.covering.bounds f hf).2.1
      obtain ⟨f', hf', hin⟩ := hjoined.covers (max f.first fr.first) (by omega) (by omega)
      have hmem' : f' ∈ arrived := harrived.mem_iff.mp (List.mem_flatten.mpr ⟨g, hg, hf'⟩)
      have := hsplit.disjoint hperm f' hmem' f List.mem_cons_self
      omega
    obtain ⟨hok, ⟨groups', hkept', hperm'⟩, -⟩ := insert_spec hlarge hkept hsingle hapart
    obtain ⟨flist', hinsert⟩ : ∃ flist', TransportReassembly.insert f.first f.second f.data flist =
        (true, flist') := ⟨_, Prod.ext hok rfl⟩
    rw [hinsert] at hkept'
    simp only [hlookup, hinsert]
    have harrived' : groups'.flatten.Perm (arrived ++ [f]) :=
      hperm'.trans ((harrived.cons f).trans (List.perm_append_singleton f arrived).symm)
    have hrest : (arrived ++ [f] ++ missing).Perm frags := by simpa using hperm
    have hiff := whole_iff hsplit hrest hkept' harrived'
    have hstored : Pending key a b (arrived ++ [f]) ⟨store key flist' r.fragments, haveFirst⟩ := by
      refine ⟨fun hnil => absurd hnil (by simp), fun _ => ?_, hfirst⟩
      refine ⟨flist', groups', ?_, hkept', harrived'⟩
      unfold store
      rw [AssociationList.lookup_replace, if_pos rfl, hlookup]
      rfl
    refine ⟨fun hmissing => ?_, fun hnil => ?_⟩
    · have hmissing := hiff.not.mpr hmissing
      match flist', hstored, hmissing with
      | [front], hstored, hmissing =>
        have hnot : ¬ (key ∈ haveFirst ∧ front.recDs.header.moreFragments = false) := fun hboth =>
          hmissing ⟨front, rfl, hfirst.mp hboth.1, hboth.2⟩
        simp only [if_neg hnot]
        exact ⟨trivial, hstored⟩
      | [], hstored, _ => exact ⟨rfl, hstored⟩
      | _ :: _ :: _, hstored, _ => exact ⟨rfl, hstored⟩
    · obtain ⟨front, rfl, hhave, hmore⟩ := hiff.mpr hnil
      obtain ⟨g, rfl⟩ : ∃ g, groups' = [g] := List.length_eq_one_iff.mp hkept'.joined.length_eq
      have hfront := hkept'.head
      rw [List.flatten_singleton] at harrived'
      have hall : g.Perm frags := by
        rw [hnil] at hperm
        exact harrived'.trans hperm
      have hranges : ∀ f ∈ frags, f.first ≤ f.second := fun f hf =>
        (hsplit.covering.bounds f hf).2.1
      have heq : g = frags := hsplit.covering.ascending.eq_of_perm hall hranges hfront.ascending
      rw [heq] at hfront
      simp only [if_pos (And.intro (hfirst.mpr hhave) hmore), hfront.sample, Option.isSome_some,
        if_true]
      refine ⟨⟨front.recDs, rfl, hfront.sample, hfront.length, hfront.entries⟩, ?_, ?_⟩
      · rw [AssociationList.lookup_erase, if_pos rfl]
      · simp

end

section

variable {key : FragKey} {a b : Int} {frags : List Fragment} {r : Reassembly}

def afterAll (r : Reassembly) (calls : List Fragment) : Reassembly :=
  calls.foldl (fun r f => (arrive r f).2) r

def callsFor (key : FragKey) (calls : List Fragment) : List Fragment :=
  calls.filter fun f => f.data.key = key

theorem callsFor_append (key : FragKey) (calls later : List Fragment) :
    callsFor key (calls ++ later) = callsFor key calls ++ callsFor key later :=
  List.filter_append calls later

theorem callsFor_cons_same {f : Fragment} {calls : List Fragment} (hf : f.data.key = key) :
    callsFor key (f :: calls) = f :: callsFor key calls :=
  List.filter_cons_of_pos (by simpa using hf)

theorem callsFor_cons_other {f : Fragment} {calls : List Fragment} (hf : f.data.key ≠ key) :
    callsFor key (f :: calls) = callsFor key calls :=
  List.filter_cons_of_neg (by simpa using hf)

theorem pending_afterAll (hsplit : Split key a b frags) (hwhole : Whole frags)
    (hlarge : b < SequenceNumber.maxValue) (hgone : Gone key r) {calls missing : List Fragment} (hmissing : missing ≠ [])
    (hperm : (callsFor key calls ++ missing).Perm frags) :
    Pending key a b (callsFor key calls) (afterAll r calls) := by
  induction calls using List.reverseRecOn generalizing missing with
  | nil =>
    refine ⟨fun _ => hgone.1, fun hnil => absurd rfl hnil, ?_⟩
    exact iff_of_false hgone.2 fun ⟨f, hf, _⟩ => absurd hf List.not_mem_nil
  | append_singleton calls f ih =>
    have hstate : afterAll r (calls ++ [f]) = (arrive (afterAll r calls) f).2 := by
      simp [afterAll]
    rw [hstate, callsFor_append]
    rw [callsFor_append] at hperm
    by_cases hf : f.data.key = key
    · rw [callsFor_cons_same hf] at hperm ⊢
      rw [List.append_assoc] at hperm
      have hpending := ih (List.cons_ne_nil f missing) hperm
      exact ((arrive_spec hsplit hwhole hlarge hpending hperm).1 hmissing).2
    · have hnil : callsFor key [] = [] := rfl
      rw [callsFor_cons_other hf, hnil, List.append_nil] at hperm ⊢
      exact (ih hmissing hperm).other hf

/-- Whatever the order of the fragments, and whatever arrives between them, the call for the last
one gives the sample back and leaves nothing of it, and the calls before do not. -/
theorem reassembled_in_any_order {before after : List Fragment} {f : Fragment}
    (hsplit : Split key a b frags) (hwhole : Whole frags) (hlarge : b < SequenceNumber.maxValue)
    (hgone : Gone key r) (horder : (callsFor key (before ++ f :: after)).Perm frags) (hf : f.data.key = key) :
    ((∃ f' ∈ after, f'.data.key = key) → (arrive (afterAll r before) f).1 = none) ∧
    ((∀ f' ∈ after, f'.data.key ≠ key) →
      (∃ data, (arrive (afterAll r before) f).1 = some data ∧ Complete frags data) ∧
        Gone key (arrive (afterAll r before) f).2) := by
  rw [callsFor_append, callsFor_cons_same hf] at horder
  have hpending := pending_afterAll hsplit hwhole hlarge hgone (List.cons_ne_nil f _) horder
  have hspec := arrive_spec hsplit hwhole hlarge hpending horder
  constructor
  · rintro ⟨f', hf', hkey⟩
    apply (hspec.1 _).1
    exact List.ne_nil_of_mem (List.mem_filter.mpr ⟨hf', by simpa using hkey⟩)
  · intro hnone
    apply hspec.2
    exact List.filter_eq_nil_iff.mpr fun f' hf' => by simpa using hnone f' hf'

end

section

/-- A header for sample `n`. -/
def headerOf (n : BitVec 32) (more : Bool) (length : BitVec 32) : Header :=
  { create .littleEndian with sequenceLow := n, moreFragments := more, messageLength := length }

def keyOf (n : BitVec 32) : FragKey := ⟨(create .littleEndian).publicationId, 0, n⟩

def firstHalf : Fragment := ⟨5, 6, true, ⟨headerOf 1 true 2, some [10, 11]⟩⟩

def secondHalf : Fragment := ⟨7, 7, false, ⟨headerOf 1 false 1, some [12]⟩⟩

/-- A fragment without payload, as `split` makes it for the entries alone. -/
def entriesOnly : Fragment :=
  ⟨6, 6, true, ⟨{ headerOf 1 true 0 with
    contentFilter := true, contentFilterEntries := [(create .littleEndian).publisherId] }, none⟩⟩

/-- The second fragment comes first, and one of another sample comes between. -/
theorem reassembled_backwards :
    ∃ data, (arrive (afterAll ⟨[], []⟩ [secondHalf, ⟨8, 8, true, ⟨headerOf 2 true 1, some [9]⟩⟩])
      firstHalf).1 = some data ∧ Complete [firstHalf, secondHalf] data := by
  have hsplit : Split (keyOf 1) 5 7 [firstHalf, secondHalf] := by
    refine ⟨by decide, ⟨rfl, by decide, rfl, by decide, rfl⟩, ?_, ?_, ?_⟩ <;>
      simp [firstHalf, secondHalf, headerOf, keyOf, ReceivedDataSample.key, create]
  have hwhole : Whole [firstHalf, secondHalf] := by
    refine ⟨?_, ?_⟩ <;> simp [firstHalf, secondHalf, headerOf, create]
  have horder : (callsFor (keyOf 1) ([secondHalf, ⟨8, 8, true, ⟨headerOf 2 true 1, some [9]⟩⟩] ++
      firstHalf :: [])).Perm [firstHalf, secondHalf] := List.Perm.swap _ _ _
  exact ((reassembled_in_any_order hsplit hwhole (by decide) ⟨rfl, List.not_mem_nil⟩ horder rfl).2
    fun f' hf' => absurd hf' List.not_mem_nil).1

/-- A sample with a fragment without payload does not come back. -/
theorem lost_without_payload : ¬ ∀ (key : FragKey) (a b : Int) (frags : List Fragment)
    (before : List Fragment) (f : Fragment), Split key a b frags →
      (callsFor key (before ++ [f])).Perm frags → f.data.key = key →
        ∃ data, (arrive (afterAll ⟨[], []⟩ before) f).1 = some data ∧ Complete frags data := by
  intro claim
  have hsplit : Split (keyOf 1) 6 7 [entriesOnly, secondHalf] := by
    refine ⟨by decide, ⟨rfl, by decide, rfl, by decide, rfl⟩, ?_, ?_, ?_⟩ <;>
      simp [entriesOnly, secondHalf, headerOf, keyOf, ReceivedDataSample.key, create]
  obtain ⟨data, hdata, -⟩ := claim (keyOf 1) 6 7 [entriesOnly, secondHalf] [entriesOnly] secondHalf
    hsplit (List.Perm.refl _) rfl
  cases hdata

end

end OpenDDS.Guarantees.FragmentReassembly
