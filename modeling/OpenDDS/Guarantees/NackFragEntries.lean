import OpenDDS.Guarantees.FragmentRequests
import OpenDDS.Guarantees.SequenceSet
import OpenDDS.Source.NackFragLoops

/-!
# One NACK_FRAG for each sample

`generate_nack_frags` asks the receive strategy twice and keeps all entries in one vector:
`has_fragments` answers whether that vector is empty, so of the samples nothing is held of only
the first one gets an entry of its own, and a sample above the last range received may get two.
-/
namespace OpenDDS.Guarantees.NackFragEntries
open Library Library.RangeList Source Source.SequenceNumber Source.DisjointSequence
open Source.DataSampleHeader Source.TransportReassembly Source.RtpsReader Source.NackFrags
open FragmentRequests (Requests heldRanges someKey)

/-- The fragment set of a sample from what is held of it, its last heartbeat of fragments and the
memory of the set alone. -/
def ownSet (held : Option (List FragRange)) (last : Option Nat) (memory : Bitmap) : FragmentNumberSet :=
  match held with
  | none => entireRange (last.getD 0) memory
  | some flist =>
    let missing := missingFrags ⟨[(someKey, flist)], []⟩ someKey memory
    match last with
    | none => missing
    | some last => extendBitmapRange missing last

/-- Each sample is treated by itself, and none outside the gaps of `recvd_` is left out. -/
structure Separate {α : Type} (r : Reassembly) (pubId : GUID) (memory : Int → Bitmap)
    (wi : WriterInfo α) (entries : FragmentInfo) : Prop where
  once : (entries.map Prod.fst).Nodup
  own : ∀ entry ∈ entries, entry.2 = ownSet (r.fragments.lookup (fragKey pubId entry.1))
    (wi.frags.lookup entry.1) (memory entry.1)
  answered : ∀ hbFrag ∈ wi.frags, ¬ Covers (missingSequenceRanges wi.recvd) hbFrag.1 →
    ¬ Held r pubId hbFrag.1 → ∃ entry ∈ entries, entry.1 = hbFrag.1 ∧
      ∀ n, Requests entry.2 n ↔ 1 ≤ n ∧ n ≤ min 256 hbFrag.2

/-- The states in which it is so. -/
structure Orderly {α : Type} (r : Reassembly) (pubId : GUID) (wi : WriterInfo α) : Prop where
  ends : Ends wi
  apart : ∀ hbFrag ∈ outside wi, Held r pubId hbFrag.1 → empty wi.recvd = false →
    ¬ (high wi.recvd ≤ hbFrag.1 ∧ hbFrag.1 ≤ wi.hbRange.2)
  first : ∀ hbFrag ∈ outside wi, ¬ Held r pubId hbFrag.1 →
    (∀ sn ∈ searched wi, ¬ Held r pubId sn) ∧ ∀ hbFrag' ∈ outside wi, hbFrag.1 ≤ hbFrag'.1
  received : ∀ hbFrag ∈ wi.frags, cumulativeAck wi.recvd ≤ hbFrag.1 → hbFrag.1 ≤ lastAck wi.recvd →
    ¬ Covers (missingSequenceRanges wi.recvd) hbFrag.1 → Held r pubId hbFrag.1

section

variable {seqs : List Range} {n : Int}

theorem gap_inside (wf : WellFormed seqs) (h : Covers (missingSequenceRanges seqs) n) :
    cumulativeAck seqs < n ∧ n < lastAck seqs ∧ n < high seqs := by
  rw [SequenceSet.missingSequenceRanges_eq_gaps wf] at h
  obtain ⟨range, hr, hlo, hhi⟩ := h
  have hgap := (mem_gaps wf.canonical).mp hr
  have hfree := hgap.absent n hlo hhi
  have hne := ne_nil_of_covers hgap.before
  have hlow := low_le wf.canonical hgap.before
  have hhigh := le_high wf.canonical hgap.after
  refine ⟨?_, ?_, by omega⟩
  · by_contra hle
    exact hfree (covers_of_le_cumulativeAck hne (by omega) (by omega))
  · by_contra hle
    have hlast : lastAck seqs = (seqs.getLast hne).1 := by simp [lastAck, List.getLast?_eq_some_getLast hne]
    have hend : high seqs = (seqs.getLast hne).2 := by simp [high, List.getLast?_eq_some_getLast hne]
    exact hfree ⟨seqs.getLast hne, List.getLast_mem hne, by omega, by omega⟩

theorem missing_bounds (wf : WellFormed seqs) :
    ∀ range ∈ missingSequenceRanges seqs, range.1 ≤ maxValue ∧ range.2 < maxValue := by
  intro range hr
  rw [SequenceSet.missingSequenceRanges_eq_gaps wf] at hr
  have hgap := (mem_gaps wf.canonical).mp hr
  have hne := ne_nil_of_covers hgap.before
  have hhigh := le_high wf.canonical hgap.after
  have hmax := high_le wf hne
  have := hgap.nonempty
  omega

end

section

variable {α : Type} {wi : WriterInfo α}

theorem mem_searched {n : Int} : n ∈ searched wi ↔ Covers (missingSequenceRanges wi.recvd) n ∨
    (empty wi.recvd = false ∧ high wi.recvd ≤ n ∧ n ≤ wi.hbRange.2) := by
  unfold searched
  rw [List.mem_append, List.mem_flatMap]
  refine or_congr ?_ ?_
  · simp only [mem_numbers]
    rfl
  · cases empty wi.recvd with
    | true => simp
    | false => simp

theorem searched_sorted (hw : Numbered wi) : (searched wi).Pairwise (· < ·) := by
  unfold searched
  rw [List.pairwise_append, List.pairwise_flatMap]
  refine ⟨⟨fun range _ => numbers_sorted _ _, ?_⟩, ?_, ?_⟩
  · rw [SequenceSet.missingSequenceRanges_eq_gaps hw.recvd]
    refine (gaps_ascending hw.recvd.canonical).imp fun hlt x hx y hy => ?_
    rw [mem_numbers] at hx hy
    omega
  · split_ifs
    · exact List.Pairwise.nil
    · exact numbers_sorted _ _
  · intro x hx y hy
    split_ifs at hy
    · cases hy
    · obtain ⟨range, hr, hxr⟩ := List.mem_flatMap.mp hx
      rw [mem_numbers] at hxr hy
      have := gap_inside hw.recvd ⟨range, hr, hxr.1, hxr.2⟩
      omega

theorem mem_outside {hbFrag : Int × Nat} : hbFrag ∈ outside wi ↔ hbFrag ∈ wi.frags ∧
    (hbFrag.1 < cumulativeAck wi.recvd ∨ lastAck wi.recvd < hbFrag.1) := by
  unfold outside
  rw [List.mem_filter, decide_eq_true_eq]

theorem outside_sorted (hw : Numbered wi) : (outside wi).Pairwise fun e f => e.1 < f.1 :=
  hw.frags.filter _

theorem lookup_frags (hw : Numbered wi) {hbFrag : Int × Nat} (h : hbFrag ∈ wi.frags) :
    wi.frags.lookup hbFrag.1 = some hbFrag.2 := by
  refine (AssociationList.mem_iff_lookup ?_).mp h
  exact List.pairwise_map.mpr (hw.frags.imp ne_of_lt)

end

section

variable {r : Reassembly} {pubId : GUID} {memory : Int → Bitmap}

theorem missingFrags_own {flist : List FragRange} {key : FragKey} (bitmap : Bitmap)
    (h : r.fragments.lookup key = some flist) :
    missingFrags r key bitmap = missingFrags ⟨[(someKey, flist)], []⟩ someKey bitmap := by
  have hgaps : r.getGaps key bitmap 8 0 =
      Reassembly.getGaps ⟨[(someKey, flist)], []⟩ someKey bitmap 8 0 := by
    unfold Reassembly.getGaps
    rw [h, List.lookup_cons_self]
  unfold missingFrags
  rw [hgaps]

theorem held_iff {sn : Int} :
    Held r pubId sn ↔ ∃ flist, r.fragments.lookup (fragKey pubId sn) = some flist := by
  exact Option.isSome_iff_exists

theorem extended_own {α : Type} {wi : WriterInfo α} {ns : List Int} {entry : Int × FragmentNumberSet}
    (h : entry ∈ extended wi (heldEntries r pubId memory ns)) :
    entry.2 = ownSet (r.fragments.lookup (fragKey pubId entry.1)) (wi.frags.lookup entry.1)
      (memory entry.1) := by
  unfold extended heldEntries at h
  rw [List.map_map, List.mem_map] at h
  obtain ⟨sn, hsn, rfl⟩ := h
  obtain ⟨flist, hflist⟩ := held_iff.mp (by simpa using (List.mem_filter.mp hsn).2)
  simp only [Function.comp_apply, heldEntry]
  cases hlast : wi.frags.lookup sn with
  | none => simp only [hlast, hflist, ownSet, missingFrags_own _ hflist]
  | some last => simp only [hlast, hflist, ownSet, missingFrags_own _ hflist]

theorem ownEntry_own {α : Type} {wi : WriterInfo α} (hw : Numbered wi) {hbFrag : Int × Nat}
    (h : hbFrag ∈ wi.frags) :
    (ownEntry r pubId memory hbFrag).1 = hbFrag.1 ∧ (ownEntry r pubId memory hbFrag).2 =
      ownSet (r.fragments.lookup (fragKey pubId hbFrag.1)) (wi.frags.lookup hbFrag.1)
        (memory hbFrag.1) := by
  rw [lookup_frags hw h]
  unfold ownEntry
  by_cases hheld : Held r pubId hbFrag.1
  · obtain ⟨flist, hflist⟩ := held_iff.mp hheld
    rw [if_pos hheld, hflist]
    exact ⟨rfl, by simp only [ownSet, missingFrags_own _ hflist]⟩
  · have hnone : r.fragments.lookup (fragKey pubId hbFrag.1) = none :=
      Option.eq_none_iff_forall_not_mem.mpr fun flist hflist => hheld (held_iff.mpr ⟨flist, hflist⟩)
    rw [if_neg hheld, hnone]
    exact ⟨rfl, rfl⟩

theorem requests_entireRange (last : Nat) (bitmap : Bitmap) (n : Int) :
    Requests (entireRange last bitmap) n ↔ 1 ≤ n ∧ n ≤ min 256 last := by
  have hmarks : ∀ i, (entireRange last bitmap).Marks i ↔ i < min 256 last := by
    intro i
    unfold entireRange FragmentNumberSet.Marks
    refine and_iff_left_of_imp fun hi => ?_
    simp only at hi ⊢
    rw [bitSet_fillWords, if_pos (by omega), BitVec.getMsbD_allOnes, decide_eq_true (by omega)]
  unfold Requests
  simp only [hmarks]
  have hbase : ((entireRange last bitmap).bitmapBase : Int) = 1 := rfl
  constructor
  · rintro ⟨i, hi, rfl⟩
    omega
  · rintro ⟨hlo, hhi⟩
    exact ⟨(n - 1).toNat, by omega, by omega⟩

end

section

variable {α : Type} {r : Reassembly} {pubId : GUID} {memory : Int → Bitmap} {wi : WriterInfo α}

theorem keys_stepOne : (extended wi (heldEntries r pubId memory (searched wi))).map Prod.fst =
    (searched wi).filter fun sn => Held r pubId sn := by
  rw [keys_extended, keys_heldEntries]

theorem first_of_answered {hbFrag : Int × Nat} (hnone : ¬ Held r pubId hbFrag.1)
    (h : ∃ entry ∈ collected r pubId memory wi, entry.1 = hbFrag.1) :
    (∀ sn ∈ searched wi, ¬ Held r pubId sn) ∧
      ∃ first rest, outside wi = first :: rest ∧ hbFrag.1 = first.1 := by
  obtain ⟨entry, hentry, hkey⟩ := h
  have hmem : hbFrag.1 ∈ (collected r pubId memory wi).map Prod.fst :=
    List.mem_map.mpr ⟨entry, hentry, hkey⟩
  rcases mem_keys_foldl hmem with hin | hheld | ⟨hnil, hfirst⟩
  · rw [keys_stepOne, List.mem_filter] at hin
    exact absurd (by simpa using hin.2) hnone
  · exact absurd hheld hnone
  · refine ⟨fun sn hsn hheld => ?_, hfirst⟩
    have hkeys : (extended wi (heldEntries r pubId memory (searched wi))).map Prod.fst =
        (searched wi).filter fun sn => Held r pubId sn := keys_stepOne
    rw [hnil] at hkeys
    exact List.filter_eq_nil_iff.mp hkeys.symm sn hsn (by simpa using hheld)

theorem orderly_of_separate (hw : Numbered wi) (hends : Ends wi)
    (h : Separate r pubId memory wi (collected r pubId memory wi)) : Orderly r pubId wi where
  ends := hends
  apart hbFrag hout hheld hne := by
    rintro ⟨hlo, hhi⟩
    -- The number is found in both steps.
    have hnodup : ((extended wi (heldEntries r pubId memory (searched wi))).map Prod.fst ++
        ((outside wi).filter fun entry => Held r pubId entry.1).map Prod.fst).Nodup :=
      h.once.sublist keys_sublist
    rw [keys_stepOne] at hnodup
    refine (List.nodup_append.mp hnodup).2.2 hbFrag.1 ?_ hbFrag.1 ?_ rfl
    · exact List.mem_filter.mpr ⟨mem_searched.mpr (.inr ⟨hne, hlo, hhi⟩), by simpa using hheld⟩
    · exact List.mem_map_of_mem (List.mem_filter.mpr ⟨hout, by simpa using hheld⟩)
  first hbFrag hout hnone := by
    obtain ⟨hmem, hside⟩ := mem_outside.mp hout
    have hgap : ¬ Covers (missingSequenceRanges wi.recvd) hbFrag.1 := fun hgap => by
      have := gap_inside hw.recvd hgap
      omega
    obtain ⟨entry, hentry, hkey, -⟩ := h.answered hbFrag hmem hgap hnone
    obtain ⟨hsearched, first, rest, heq, hfirst⟩ := first_of_answered hnone ⟨entry, hentry, hkey⟩
    refine ⟨hsearched, fun other hother => ?_⟩
    have hsorted := outside_sorted hw
    rw [heq] at hsorted hother
    rcases List.mem_cons.mp hother with rfl | hother
    · omega
    · have := (List.pairwise_cons.mp hsorted).1 other hother
      omega
  received hbFrag hmem hlo hhi hgap := by
    by_contra hnone
    obtain ⟨entry, hentry, hkey, -⟩ := h.answered hbFrag hmem hgap hnone
    obtain ⟨-, first, rest, heq, hfirst⟩ := first_of_answered hnone ⟨entry, hentry, hkey⟩
    have hout : first ∈ outside wi := by
      rw [heq]
      exact List.mem_cons_self
    have := (mem_outside.mp hout).2
    omega

theorem collected_eq (hw : Numbered wi) (h : Orderly r pubId wi) :
    collected r pubId memory wi = extended wi (heldEntries r pubId memory (searched wi)) ++
      (outside wi).map (ownEntry r pubId memory) := by
  have hsorted := outside_sorted hw
  have hfirst := h.first
  unfold collected
  cases hout : outside wi with
  | nil => simp
  | cons first rest =>
    rw [hout] at hsorted hfirst
    have hlater := (List.pairwise_cons.mp hsorted).1
    have hheld : ∀ entry ∈ rest, Held r pubId entry.1 := fun entry hentry => by
      by_contra hnone
      have h₁ := (hfirst entry (by simp [hentry]) hnone).2 first (by simp)
      have h₂ := hlater entry hentry
      omega
    have hadded : request r pubId memory (extended wi (heldEntries r pubId memory (searched wi))) first =
        extended wi (heldEntries r pubId memory (searched wi)) ++ [ownEntry r pubId memory first] := by
      refine if_pos ?_
      by_cases hone : Held r pubId first.1
      · exact .inl hone
      · have hnone := (hfirst first (by simp) hone).1
        have hkeys : (extended wi (heldEntries r pubId memory (searched wi))).map Prod.fst = [] := by
          rw [keys_stepOne, List.filter_eq_nil_iff]
          intro sn hsn
          simpa using hnone sn hsn
        exact .inr (List.map_eq_nil_iff.mp hkeys)
    rw [List.foldl_cons, hadded, foldl_request_held hheld]
    simp

theorem separate_of_orderly (hw : Numbered wi) (h : Orderly r pubId wi) :
    Separate r pubId memory wi (collected r pubId memory wi) := by
  have hkeys : ((outside wi).map (ownEntry r pubId memory)).map Prod.fst = (outside wi).map Prod.fst := by
    rw [List.map_map]
    exact List.map_congr_left fun e he => (ownEntry_own hw (mem_outside.mp he).1).1
  rw [collected_eq hw h]
  refine ⟨?_, fun entry hentry => ?_, fun hbFrag hmem hgap hnone => ?_⟩
  · rw [List.map_append, keys_stepOne, hkeys, List.nodup_append]
    refine ⟨(searched_sorted hw).nodup.filter _, ?_, ?_⟩
    · exact List.pairwise_map.mpr ((outside_sorted hw).imp ne_of_lt)
    · intro a ha b hb hab
      subst hab
      obtain ⟨hsearched, hheld⟩ := List.mem_filter.mp ha
      obtain ⟨hbFrag, hout, rfl⟩ := List.mem_map.mp hb
      have hside := (mem_outside.mp hout).2
      rcases mem_searched.mp hsearched with hgap | ⟨hne, hlo, hhi⟩
      · have := gap_inside hw.recvd hgap
        omega
      · exact h.apart hbFrag hout (by simpa using hheld) hne ⟨hlo, hhi⟩
  · rcases List.mem_append.mp hentry with hin | hin
    · exact extended_own hin
    · obtain ⟨hbFrag, hout, rfl⟩ := List.mem_map.mp hin
      obtain ⟨hkey, hset⟩ : (ownEntry r pubId memory hbFrag).1 = hbFrag.1 ∧ _ :=
        ownEntry_own hw (mem_outside.mp hout).1
      rw [hkey]
      exact hset
  · have hout : hbFrag ∈ outside wi := mem_outside.mpr ⟨hmem, by
      by_contra hside
      exact hnone (h.received hbFrag hmem (by omega) (by omega) hgap)⟩
    refine ⟨ownEntry r pubId memory hbFrag, List.mem_append_right _ (List.mem_map_of_mem hout), ?_⟩
    unfold ownEntry
    rw [if_neg hnone]
    exact ⟨rfl, requests_entireRange _ _⟩

theorem orderly_of_result {fuel : Nat} {nackfragCount : Int} {nf : List NackFragSubmessage}
    (hw : Numbered wi) (hnf : generateNackFrags r pubId memory fuel wi nackfragCount = some nf)
    (hseparate : Separate r pubId memory wi (nf.map NackFragSubmessage.entry)) : Orderly r pubId wi := by
  have hhigh : high wi.recvd ≤ maxValue := by
    by_cases hne : wi.recvd = []
    · rw [hne]
      decide
    · exact high_le hw.recvd hne
  have hinfo : fragInfoOf r pubId memory fuel wi = some (nf.map NackFragSubmessage.entry) := by
    rw [← generateNackFrags_eq wi nackfragCount, hnf]
    rfl
  obtain ⟨hends, heq⟩ := fragInfoOf_some hw (missing_bounds hw.recvd) hhigh hinfo
  rw [heq] at hseparate
  exact orderly_of_separate hw hends hseparate

end

/-- The NACK_FRAGs treat each sample by itself exactly in the orderly states. -/
theorem nack_frags_separate_iff {α : Type} (r : Reassembly) (pubId : GUID) (memory : Int → Bitmap)
    (wi : WriterInfo α) (nackfragCount : Int) (hw : Numbered wi) :
    (∃ fuel nf, generateNackFrags r pubId memory fuel wi nackfragCount = some nf ∧
        Separate r pubId memory wi (nf.map NackFragSubmessage.entry)) ↔ Orderly r pubId wi := by
  constructor
  · rintro ⟨fuel, nf, hnf, hseparate⟩
    exact orderly_of_result hw hnf hseparate
  · intro horderly
    obtain ⟨fuel, hinfo⟩ : ∃ fuel, fragInfoOf r pubId memory fuel wi =
        some (collected r pubId memory wi) :=
      fragInfoOf_eq hw (fun range hr => (missing_bounds hw.recvd range hr).2) horderly.ends
    rw [← generateNackFrags_eq wi nackfragCount, Option.map_eq_some_iff] at hinfo
    obtain ⟨nf, hnf, hentries⟩ := hinfo
    refine ⟨fuel, nf, hnf, ?_⟩
    rw [hentries]
    exact separate_of_orderly hw horderly

section

/-- Everything up to 4 has been received, and heartbeats for fragments of later samples. -/
def announced (frags : List (Int × Nat)) : WriterInfo Unit :=
  { WriterInfo.default with recvd := [(0, 4)], hbRange := (1, 4), frags := frags }

theorem numbered_announced {frags : List (Int × Nat)} (hs : frags.Pairwise fun e f => e.1 < f.1)
    (hkeys : ∀ entry ∈ frags, entry.1 ≤ maxValue) : Numbered (announced frags) :=
  ⟨⟨canonical_cons.mpr ⟨by decide, by simp, canonical_nil⟩, by simp [announced, Within, maxValue]⟩,
    hs, hkeys, show (4 : Int) ≤ maxValue by decide⟩

def nothingHeld : Reassembly := ⟨[], []⟩

theorem not_held_nothing (pubId : GUID) (sn : Int) : ¬ Held nothingHeld pubId sn := by
  simp [Held, hasFrags, nothingHeld]

/-- Number 3 is missing between what has been received, and 5 lies behind it. -/
def gapped : WriterInfo Unit :=
  { WriterInfo.default with
    recvd := [(0, 2), (4, 4)], hbRange := (1, 4), frags := [(3, 2), (5, 3)] }

theorem numbered_gapped : Numbered gapped :=
  ⟨⟨canonical_cons.mpr ⟨by decide, by simp, canonical_cons.mpr ⟨by decide, by simp, canonical_nil⟩⟩,
    by simp [gapped, Within, maxValue]⟩, by decide, by decide, by decide⟩

/-- The first fragment of each of the two is held. -/
def bothHeld : Reassembly :=
  ⟨[3, 5].map fun sn => (fragKey (create .littleEndian).publicationId sn, heldRanges [(1, 1)]), []⟩

/-- Two samples of which a fragment is held, one in a gap and one behind. -/
theorem nack_frags_two : ∃ fuel nf, generateNackFrags bothHeld (create .littleEndian).publicationId
    (fun _ _ => 0) fuel gapped 0 = some nf ∧
      Separate bothHeld (create .littleEndian).publicationId (fun _ _ => 0) gapped
        (nf.map NackFragSubmessage.entry) := by
  have hheld : ∀ e ∈ gapped.frags, Held bothHeld (create .littleEndian).publicationId e.1 := by
    decide
  have hout : outside gapped = [(5, 3)] := by decide
  have hpass : Passable gapped := by
    unfold Passable
    decide
  have hends : Ends gapped := ⟨fun _ => by decide, hpass, by rw [hout]; decide⟩
  refine (nack_frags_separate_iff bothHeld _ _ gapped 0 numbered_gapped).mpr
    ⟨hends, ?_, ?_, fun e he _ _ _ => hheld e he⟩
  · -- The sample behind the gap lies above the heartbeat range.
    rw [hout]
    decide
  · intro e he hnone
    exact absurd (hheld e (mem_outside.mp he).1) hnone

/-- Of two samples of which nothing is held the second one gets no entry. -/
theorem second_sample_unanswered : ¬ ∀ (r : Reassembly) (pubId : GUID) (memory : Int → Bitmap)
    (wi : WriterInfo Unit), Numbered wi → ∃ fuel nf, generateNackFrags r pubId memory fuel wi 0 = some nf ∧
      Separate r pubId memory wi (nf.map NackFragSubmessage.entry) := by
  intro hall
  have hw : Numbered (announced [(5, 3), (6, 2)]) := numbered_announced (by decide) (by decide)
  obtain ⟨fuel, nf, hnf, hseparate⟩ := hall nothingHeld (create .littleEndian).publicationId
    (fun _ _ => 0) (announced [(5, 3), (6, 2)]) hw
  have hfirst := ((orderly_of_result hw hnf hseparate).first (6, 2) (by decide)
    (not_held_nothing _ _)).2 (5, 3) (by decide)
  exact absurd hfirst (by decide)

end

end OpenDDS.Guarantees.NackFragEntries
