import Mathlib.Algebra.BigOperators.Group.List.Basic
import OpenDDS.Library.AssociationList
import OpenDDS.Source.BitmapInsert
import OpenDDS.Source.DataSampleHeader

/-!
# Reassembly of fragments

`OpenDDS::DCPS::TransportReassembly` (dds/DCPS/transport/framework/TransportReassembly.{h,cpp})
with `DataSampleHeader::join`: the ranges of a sample that have arrived are kept in order, and a
range that touches a neighbour is joined with it. A chain of message blocks is the list of its
bytes; the values of transport sequence numbers are integers from `-2 ^ 63 + 1` to `2 ^ 63 - 1`.
-/
namespace OpenDDS.Source.TransportReassembly

open DataSampleHeader

/-- `ReceivedDataSample`; its payload may be null. -/
structure ReceivedDataSample where
  header : Header
  sample : Option (List (BitVec 8))

/-- The publication and the sequence number of a sample. -/
structure FragKey where
  publication : GUID
  sequenceHigh : BitVec 32
  sequenceLow : BitVec 32
  deriving DecidableEq

def ReceivedDataSample.key (data : ReceivedDataSample) : FragKey :=
  ⟨data.header.publicationId, data.header.sequenceHigh, data.header.sequenceLow⟩

structure FragRange where
  first : Int
  second : Int
  recDs : ReceivedDataSample

structure Reassembly where
  fragments : List (FragKey × List FragRange)
  haveFirst : List FragKey

/-- `DataSampleHeader::join`; entries of the first header are appended backwards. -/
def join (first second : Header) : Option Header :=
  if !first.moreFragments ∨ (first.sequenceHigh, first.sequenceLow) ≠
      (second.sequenceHigh, second.sequenceLow) then none
  else
    let result := { second with messageLength := second.messageLength + first.messageLength }
    if first.contentFilter then
      some { result with
        contentFilter := true
        contentFilterEntries := result.contentFilterEntries ++ first.contentFilterEntries.reverse }
    else some result

/-- The payloads of two ranges that are combined: null if one of them is. -/
def chain (left right : Option (List (BitVec 8))) : Option (List (BitVec 8)) :=
  match left, right with
  | some bytes, some more => some (bytes ++ more)
  | _, _ => none

/-- `if (!fr.rec_ds_.sample_) fr.rec_ds_.header_.more_fragments_ = true`. -/
def expectMore (fr : FragRange) : FragRange :=
  match fr.recDs.sample with
  | none => { fr with recDs := { fr.recDs with header := { fr.recDs.header with moreFragments := true } } }
  | some _ => fr

/-- The check after a combination on the right: the next range may be combined as well. -/
def coalesce (next : Int) (fr : FragRange) : List FragRange → Bool × List FragRange
  | [] => (true, [fr])
  | it :: rest =>
    if next = it.first then
      let fr := expectMore fr
      match join fr.recDs.header it.recDs.header with
      | none => (false, fr :: it :: rest)
      | some joined =>
        match it.recDs.sample, fr.recDs.sample with
        | none, _ => (true, { fr with second := it.second, recDs := ⟨joined, none⟩ } :: rest)
        | some _, none => (false, { fr with recDs := ⟨joined, none⟩ } :: it :: rest)
        | some more, some bytes =>
          (true, { fr with second := it.second, recDs := ⟨joined, some (bytes ++ more)⟩ } :: rest)
    else (true, fr :: it :: rest)

/-- `insert`: whether the headers could be joined, and the list. -/
protected def insert (first second : Int) (data : ReceivedDataSample) : List FragRange → Bool × List FragRange
  | [] => (true, [⟨first, second, data⟩])
  | fr :: rest =>
    -- behind the largest number `next` overflows, and is smaller than all others
    if second = SequenceNumber.maxValue ∨ second + 1 < fr.first then
      (true, ⟨first, second, data⟩ :: fr :: rest)
    else if second + 1 = fr.first then
      match join data.header fr.recDs.header with
      | none => (false, fr :: rest)
      | some joined =>
        (true, ⟨first, fr.second, ⟨joined, chain data.sample fr.recDs.sample⟩⟩ :: rest)
    else if first - 1 = fr.second then
      let fr := expectMore fr
      match join fr.recDs.header data.header with
      | none => (false, fr :: rest)
      | some joined =>
        coalesce (second + 1) ⟨fr.first, second, ⟨joined, chain fr.recDs.sample data.sample⟩⟩ rest
    else
      let (inserted, rest) := TransportReassembly.insert first second data rest
      (inserted, fr :: rest)

/-- `fragments_[key] = flist`, for a key of the map. -/
def store (key : FragKey) (flist : List FragRange) (fragments : List (FragKey × List FragRange)) :
    List (FragKey × List FragRange) :=
  fragments.map fun entry => if entry.1 = key then (key, flist) else entry

/-- `have_first_.insert(key)`. -/
def addFirst (key : FragKey) (haveFirst : List FragKey) : List FragKey :=
  if key ∈ haveFirst then haveFirst else haveFirst ++ [key]

/-- `reassemble_i`: a sample that is whole comes back, unless its payload is null. -/
def Reassembly.reassembleI (first second : Int) (firstFrag : Bool) (data : ReceivedDataSample)
    (r : Reassembly) : Option ReceivedDataSample × Reassembly :=
  let key := data.key
  let haveFirst := if firstFrag then addFirst key r.haveFirst else r.haveFirst
  match r.fragments.lookup key with
  | none => (none, ⟨r.fragments ++ [(key, [⟨first, second, data⟩])], haveFirst⟩)
  | some flist =>
    match TransportReassembly.insert first second data flist with
    | (false, flist) => (none, ⟨store key flist r.fragments, haveFirst⟩)
    | (true, flist) =>
      match flist with
      | [front] =>
        if key ∈ haveFirst ∧ front.recDs.header.moreFragments = false then
          (if front.recDs.sample.isSome then some front.recDs else none,
            ⟨r.fragments.filter fun entry => entry.1 ≠ key, haveFirst.filter (· ≠ key)⟩)
        else (none, ⟨store key flist r.fragments, haveFirst⟩)
      | _ => (none, ⟨store key flist r.fragments, haveFirst⟩)

/-- `reassemble` of a range, where the first fragment has number one. -/
def Reassembly.reassemble (first second : Int) (data : ReceivedDataSample) (r : Reassembly) :
    Option ReceivedDataSample × Reassembly :=
  r.reassembleI first second (first == 1) data

def Reassembly.reassembleOne (transportSeq : Int) (firstFrag : Bool) (data : ReceivedDataSample)
    (r : Reassembly) : Option ReceivedDataSample × Reassembly :=
  r.reassembleI transportSeq transportSeq firstFrag data

section

variable (host : Library.ByteOrder)

/-- `ReceivedDataSample dummy(0)`, the placeholder for numbers that do not arrive. -/
def dummy (key : FragKey) (more : Bool) : ReceivedDataSample where
  header := { create host with
    sequenceHigh := key.sequenceHigh, sequenceLow := key.sequenceLow, moreFragments := more }
  sample := none

/-- Whether there is a gap between two elements that the dropped range fits in. -/
def fitsGap (first second : Int) : List FragRange → Bool
  | fr1 :: fr2 :: rest =>
    (decide (fr1.second < first) && decide (second < fr2.first)) || fitsGap first second (fr2 :: rest)
  | _ => false

/-- `rec_ds_.header_.more_fragments_ = true`. -/
def withMore (fr : FragRange) : FragRange :=
  { fr with recDs := { fr.recDs with header := { fr.recDs.header with moreFragments := true } } }

/-- `withMore` for the last element. -/
def backWithMore : List FragRange → List FragRange
  | [] => []
  | [fr] => [withMore fr]
  | fr :: rest => fr :: backWithMore rest

/-- Whether the dropped range comes right after the last element. -/
def followsBack (first : Int) (flist : List FragRange) : Bool :=
  flist.getLast?.any fun back => first == SequenceNumber.next back.second

/-- The loop body of `data_unavailable` for a dropped range: whether the key enters
`have_first_`, and the list. What `insert` returns is not looked at. -/
def dropFrom (first second : Int) (key : FragKey) (haveFirst : Bool) (flist : List FragRange) :
    Bool × List FragRange :=
  match flist with
  | [] => (false, [])
  | front :: rest =>
    if second = front.first - 1 ∧ haveFirst = false then
      (true, (TransportReassembly.insert first second (dummy host key true) (front :: rest)).2)
    else
      let inGap := fitsGap first second (front :: rest)
      let flist :=
        if inGap then (TransportReassembly.insert first second (dummy host key true) (front :: rest)).2
        else front :: rest
      (false,
        if followsBack first flist then
          (TransportReassembly.insert first second (dummy host key inGap) (backWithMore flist)).2
        else flist)

/-- `dropFrom` for an entry of `fragments_`. -/
def Reassembly.dropEntry (first second : Int) (r : Reassembly) (key : FragKey)
    (flist : List FragRange) : Bool × List FragRange :=
  dropFrom host first second key (decide (key ∈ r.haveFirst)) flist

/-- `data_unavailable` of a range, which goes through all samples. -/
def Reassembly.dataUnavailable (first second : Int) (r : Reassembly) : Reassembly where
  fragments := r.fragments.map fun entry => (entry.1, (r.dropEntry host first second entry.1 entry.2).2)
  haveFirst := r.fragments.foldl (fun haveFirst entry =>
    if (r.dropEntry host first second entry.1 entry.2).1 then addFirst entry.1 haveFirst else haveFirst)
    r.haveFirst

def Reassembly.dataUnavailableSample (key : FragKey) (r : Reassembly) : Reassembly :=
  ⟨r.fragments.filter fun entry => entry.1 ≠ key, r.haveFirst.filter (· ≠ key)⟩

end

section

open DisjointSequence

/-- The loop of `get_gaps` over neighbours; `getLow` is `toULong` of the value. -/
def gapsLoop (base length : Nat) : List FragRange → Bitmap → Nat → Bitmap × Nat
  | it :: itNext :: rest, bitmap, numBits =>
    let low := toULong (toULong it.second + 1 - base)
    let high := toULong (toULong itNext.first - 1 - base)
    let (_, bitmap, numBits) := fillBitmapRange low high bitmap length numBits
    gapsLoop base length (itNext :: rest) bitmap numBits
  | _, bitmap, numBits => (bitmap, numBits)

/-- `get_gaps`: the number that bit zero stands for, the bitmap and `numBits`. -/
def Reassembly.getGaps (r : Reassembly) (key : FragKey) (bitmap : Bitmap) (length numBits : Nat) :
    Nat × Bitmap × Nat :=
  match r.fragments.lookup key with
  | none => (0, bitmap, numBits)
  | some [] => (0, bitmap, numBits)
  | some (front :: rest) =>
    if length = 0 then (0, bitmap, numBits)
    else if front.first ≠ 1 then
      let (_, bitmap, numBits) :=
        fillBitmapRange 0 (toULong (toULong front.first - 2)) bitmap length numBits
      (1, gapsLoop 1 length (front :: rest) bitmap numBits)
    else
      let base := toULong (toULong front.second + 1)
      if rest.isEmpty then (base, (fillBitmapRange 0 0 bitmap length numBits).2)
      else (base, gapsLoop base length (front :: rest) bitmap numBits)

end

end OpenDDS.Source.TransportReassembly

/-!
# What becomes of the ranges of a sample

Whatever ranges are kept, in whatever order, `insert` and `data_unavailable` only join two that
touch, set the flag of one or write the header of a null one. What these steps keep is kept by
the operations.
-/
namespace OpenDDS.Source.TransportReassembly

open DataSampleHeader

theorem join_eq {first second : Header} (hmore : first.moreFragments = true)
    (hseq : (first.sequenceHigh, first.sequenceLow) = (second.sequenceHigh, second.sequenceLow)) :
    join first second = some { second with
      messageLength := second.messageLength + first.messageLength
      contentFilter := second.contentFilter || first.contentFilter
      contentFilterEntries := second.contentFilterEntries ++
        if first.contentFilter then first.contentFilterEntries.reverse else [] } := by
  unfold join
  rw [if_neg (by simp [hmore, hseq])]
  cases first.contentFilter with
  | true => simp
  | false => simp

theorem join_spec {first second : Header} (hmore : first.moreFragments = true)
    (hseq : (first.sequenceHigh, first.sequenceLow) = (second.sequenceHigh, second.sequenceLow)) :
    ∃ joined, join first second = some joined ∧
      (⟨joined.publicationId, joined.sequenceHigh, joined.sequenceLow⟩ : FragKey) =
        ⟨second.publicationId, second.sequenceHigh, second.sequenceLow⟩ ∧
      joined.moreFragments = second.moreFragments ∧
      joined.messageLength = second.messageLength + first.messageLength ∧
      joined.contentFilter = (second.contentFilter || first.contentFilter) ∧
      joined.contentFilterEntries = second.contentFilterEntries ++
        if first.contentFilter then first.contentFilterEntries.reverse else [] :=
  ⟨_, join_eq hmore hseq, rfl, rfl, rfl, rfl, rfl⟩

/-- Two ranges that touch, under the header of both. -/
def combined (fr fr' : FragRange) (joined : Header) : FragRange :=
  ⟨fr.first, fr'.second, ⟨joined, chain fr.recDs.sample fr'.recDs.sample⟩⟩

/-- Steps on ranges, wherever they stand in the list. -/
inductive Merges : List FragRange → List FragRange → Prop
  | perm {l l' : List FragRange} : l.Perm l' → Merges l l'
  | join {fr fr' : FragRange} {joined : Header} {l : List FragRange} :
      fr.second + 1 = fr'.first → join fr.recDs.header fr'.recDs.header = some joined →
      Merges (fr :: fr' :: l) (combined fr fr' joined :: l)
  | more {fr : FragRange} {l : List FragRange} : Merges (fr :: l) (withMore fr :: l)
  | header {fr fr' : FragRange} {l : List FragRange} (joined : Header) : fr.recDs.sample = none →
      Merges (fr :: fr' :: l) ({ fr with recDs := ⟨joined, none⟩ } :: fr' :: l)
  | trans {l l' l'' : List FragRange} : Merges l l' → Merges l' l'' → Merges l l''

section

variable {l l' : List FragRange} {fr fr' : FragRange} {joined : Header}

theorem Merges.refl (l : List FragRange) : Merges l l := .perm (List.Perm.refl l)

theorem Merges.cons (fr : FragRange) (h : Merges l l') : Merges (fr :: l) (fr :: l') := by
  have hswap : ∀ (x : FragRange) (rest : List FragRange), Merges (fr :: x :: rest) (x :: fr :: rest) :=
    fun x rest => .perm (List.Perm.swap x fr rest)
  have hswap' : ∀ (x : FragRange) (rest : List FragRange), Merges (x :: fr :: rest) (fr :: x :: rest) :=
    fun x rest => .perm (List.Perm.swap fr x rest)
  induction h with
  | perm hperm => exact .perm (hperm.cons fr)
  | @join x y joined rest htouch hjoin =>
    have hmove : Merges (fr :: x :: y :: rest) (x :: y :: fr :: rest) :=
      .perm ((List.Perm.swap x fr (y :: rest)).trans ((List.Perm.swap y fr rest).cons x))
    exact (hmove.trans (.join htouch hjoin)).trans (hswap' _ rest)
  | @more x rest => exact ((hswap x rest).trans .more).trans (hswap' _ rest)
  | @header x y rest joined hnull =>
    have hmove : Merges (fr :: x :: y :: rest) (x :: y :: fr :: rest) :=
      .perm ((List.Perm.swap x fr (y :: rest)).trans ((List.Perm.swap y fr rest).cons x))
    refine (hmove.trans (.header joined hnull)).trans (.perm ?_)
    exact ((List.Perm.swap fr y rest).cons _).trans (List.Perm.swap fr _ (y :: rest))
  | trans _ _ ih ih' => exact ih.trans ih'

theorem merges_expectMore (fr : FragRange) (l : List FragRange) :
    Merges (fr :: l) (expectMore fr :: l) := by
  unfold expectMore
  split
  · exact .more
  · exact .refl _

theorem merges_backWithMore (l : List FragRange) : Merges l (backWithMore l) := by
  induction l using backWithMore.induct with
  | case1 => exact .refl _
  | case2 fr => exact .more
  | case3 fr rest hrest ih =>
    cases rest with
    | nil => exact absurd rfl hrest
    | cons fr' rest => exact ih.cons fr

theorem chain_eq_none_iff {left right : Option (List (BitVec 8))} :
    chain left right = none ↔ left = none ∨ right = none := by
  cases left <;> cases right <;> simp [chain]

theorem Merges.payload {Q : FragRange → Prop} (h : Merges l l')
    (hjoin : ∀ fr fr' joined, fr.second + 1 = fr'.first →
      TransportReassembly.join fr.recDs.header fr'.recDs.header = some joined → Q fr → Q fr' →
        Q (combined fr fr' joined))
    (hmore : ∀ fr, Q fr → Q (withMore fr)) (hall : ∀ fr ∈ l, fr.recDs.sample ≠ none → Q fr) :
    ∀ fr ∈ l', fr.recDs.sample ≠ none → Q fr := by
  induction h with
  | perm hperm => exact fun fr hfr => hall fr (hperm.mem_iff.mpr hfr)
  | @join x y joined rest htouch hjoined =>
    rw [List.forall_mem_cons] at hall ⊢
    obtain ⟨hx, hall⟩ := hall
    rw [List.forall_mem_cons] at hall
    refine ⟨fun hsome => ?_, hall.2⟩
    have hboth := not_or.mp (mt chain_eq_none_iff.mpr hsome)
    exact hjoin x y joined htouch hjoined (hx hboth.1) (hall.1 hboth.2)
  | more =>
    rw [List.forall_mem_cons] at hall ⊢
    exact ⟨fun hsome => hmore _ (hall.1 hsome), hall.2⟩
  | header _ hnull =>
    rw [List.forall_mem_cons] at hall ⊢
    exact ⟨fun hsome => absurd rfl hsome, hall.2⟩
  | trans _ _ ih ih' => exact ih' (ih hall)

theorem Merges.null (h : Merges l l') (hnull : ∃ fr ∈ l, fr.recDs.sample = none) :
    ∃ fr ∈ l', fr.recDs.sample = none := by
  induction h with
  | perm hperm =>
    obtain ⟨fr, hfr, hnone⟩ := hnull
    exact ⟨fr, hperm.mem_iff.mp hfr, hnone⟩
  | join _ _ =>
    simp only [List.mem_cons, exists_eq_or_imp] at hnull ⊢
    obtain hx | hy | hrest := hnull
    · exact .inl (chain_eq_none_iff.mpr (.inl hx))
    · exact .inl (chain_eq_none_iff.mpr (.inr hy))
    · exact .inr hrest
  | more =>
    simp only [List.mem_cons, exists_eq_or_imp] at hnull ⊢
    exact hnull
  | header joined _ => exact ⟨_, List.mem_cons_self, rfl⟩
  | trans _ _ ih ih' => exact ih' (ih hnull)

theorem Merges.solid (h : Merges l l') (hall : ∀ fr ∈ l, fr.recDs.sample ≠ none) :
    ∀ fr ∈ l', fr.recDs.sample ≠ none := by
  induction h with
  | perm hperm => exact fun fr hfr => hall fr (hperm.mem_iff.mpr hfr)
  | join _ _ =>
    simp only [List.forall_mem_cons] at hall ⊢
    exact ⟨fun hnone => (chain_eq_none_iff.mp hnone).elim hall.1 hall.2.1, hall.2.2⟩
  | more =>
    simp only [List.forall_mem_cons] at hall ⊢
    exact hall
  | header _ hnull => exact absurd hnull (hall _ List.mem_cons_self)
  | trans _ _ ih ih' => exact ih' (ih hall)

def FragRange.width (fr : FragRange) : Int := fr.second - fr.first + 1

theorem Merges.width (h : Merges l l') :
    (l'.map FragRange.width).sum = (l.map FragRange.width).sum := by
  induction h with
  | perm hperm => exact (hperm.map _).sum_eq.symm
  | @join x y joined rest htouch _ =>
    simp only [List.map_cons, List.sum_cons, FragRange.width, combined]
    omega
  | more => rfl
  | header _ _ => rfl
  | trans _ _ ih ih' => exact ih'.trans ih

end

section

variable {first second : Int} {data : ReceivedDataSample} {flist : List FragRange}

theorem coalesce_merges (fr : FragRange) (rest : List FragRange) :
    Merges (fr :: rest) (coalesce (fr.second + 1) fr rest).2 := by
  have hsame : (expectMore fr).second = fr.second := by
    unfold expectMore
    split <;> rfl
  cases rest with
  | nil => exact .refl _
  | cons it rest =>
    simp only [coalesce]
    split
    · rename_i htouch
      refine (merges_expectMore fr (it :: rest)).trans ?_
      rw [← hsame] at htouch
      generalize expectMore fr = fr at htouch
      split
      · exact .refl _
      · rename_i joined hjoin
        have hmerge : Merges (fr :: it :: rest) (combined fr it joined :: rest) := .join htouch hjoin
        unfold combined at hmerge
        split
        · rename_i hnone
          rwa [hnone, chain_eq_none_iff.mpr (.inr rfl)] at hmerge
        · rename_i hnone
          exact .header joined hnone
        · rename_i more bytes hmore hbytes
          rwa [hmore, hbytes] at hmerge
    · exact .refl _

/-- `insert` found a range that touches, and the headers could not be joined. -/
def Refused (first second : Int) (data : ReceivedDataSample) (flist : List FragRange) : Prop :=
  ∃ fr ∈ flist, (second + 1 = fr.first ∧ join data.header fr.recDs.header = none) ∨
    (fr.second + 1 = first ∧ join (expectMore fr).recDs.header data.header = none)

theorem insert_merges (first second : Int) (data : ReceivedDataSample) (flist : List FragRange) :
    Merges (⟨first, second, data⟩ :: flist) (TransportReassembly.insert first second data flist).2 ∨
      (TransportReassembly.insert first second data flist).1 = false ∧
        Merges flist (TransportReassembly.insert first second data flist).2 ∧
        Refused first second data flist := by
  induction flist with
  | nil => exact .inl (.refl _)
  | cons fr rest ih =>
    by_cases hbefore : second = SequenceNumber.maxValue ∨ second + 1 < fr.first
    · have heq : TransportReassembly.insert first second data (fr :: rest) =
          (true, ⟨first, second, data⟩ :: fr :: rest) := by
        simp only [TransportReassembly.insert, if_pos hbefore]
      rw [heq]
      exact .inl (.refl _)
    by_cases hleft : second + 1 = fr.first
    · cases hjoin : join data.header fr.recDs.header with
      | none =>
        have heq : TransportReassembly.insert first second data (fr :: rest) = (false, fr :: rest) := by
          simp only [TransportReassembly.insert, if_neg hbefore, if_pos hleft, hjoin]
        rw [heq]
        exact .inr ⟨rfl, .refl _, fr, List.mem_cons_self, .inl ⟨hleft, hjoin⟩⟩
      | some joined =>
        have heq : TransportReassembly.insert first second data (fr :: rest) =
            (true, combined ⟨first, second, data⟩ fr joined :: rest) := by
          simp only [TransportReassembly.insert, if_neg hbefore, if_pos hleft, hjoin, combined]
        rw [heq]
        exact .inl (.join hleft hjoin)
    by_cases hright : first - 1 = fr.second
    · have hrange : (expectMore fr).first = fr.first ∧ (expectMore fr).second = fr.second := by
        unfold expectMore
        split <;> exact ⟨rfl, rfl⟩
      have hmore := merges_expectMore fr rest
      cases hjoin : join (expectMore fr).recDs.header data.header with
      | none =>
        have heq : TransportReassembly.insert first second data (fr :: rest) =
            (false, expectMore fr :: rest) := by
          simp only [TransportReassembly.insert, if_neg hbefore, if_neg hleft, if_pos hright, hjoin]
        rw [heq]
        exact .inr ⟨rfl, hmore, fr, List.mem_cons_self, .inr ⟨by omega, hjoin⟩⟩
      | some joined =>
        have heq : TransportReassembly.insert first second data (fr :: rest) =
            coalesce (second + 1) (combined (expectMore fr) ⟨first, second, data⟩ joined) rest := by
          simp only [TransportReassembly.insert, if_neg hbefore, if_neg hleft, if_pos hright, hjoin,
            combined]
        rw [heq]
        have hmove : Merges (⟨first, second, data⟩ :: fr :: rest)
            (expectMore fr :: ⟨first, second, data⟩ :: rest) :=
          (Merges.perm (List.Perm.swap fr _ rest)).trans (merges_expectMore fr _)
        have htouch : (expectMore fr).second + 1 = first := by
          omega
        exact .inl ((hmove.trans (.join htouch hjoin)).trans (coalesce_merges _ rest))
    · have heq : TransportReassembly.insert first second data (fr :: rest) =
          ((TransportReassembly.insert first second data rest).1,
            fr :: (TransportReassembly.insert first second data rest).2) := by
        simp only [TransportReassembly.insert, if_neg hbefore, if_neg hleft, if_neg hright]
      rw [heq]
      obtain hin | ⟨hfalse, hmerges, fr', hfr', hrefused⟩ := ih
      · exact .inl ((Merges.perm (List.Perm.swap fr _ rest)).trans (hin.cons fr))
      · exact .inr ⟨hfalse, hmerges.cons fr, fr', List.mem_cons_of_mem _ hfr', hrefused⟩

end

section

variable (host : Library.ByteOrder)

theorem Merges.append_left {l l' : List FragRange} (h : Merges l l') (left : List FragRange) :
    Merges (left ++ l) (left ++ l') := by
  induction left with
  | nil => exact h
  | cons fr left ih => exact ih.cons fr

theorem insert_dummy (first second : Int) (key : FragKey) (more : Bool) (flist : List FragRange) :
    ∃ l, (∀ fr ∈ l, fr.recDs.sample = none) ∧ Merges (l ++ flist)
      (TransportReassembly.insert first second (dummy host key more) flist).2 := by
  obtain hin | ⟨-, hout, -⟩ := insert_merges first second (dummy host key more) flist
  · exact ⟨[_], fun fr hfr => by rw [List.mem_singleton.mp hfr]; rfl, hin⟩
  · exact ⟨[], by simp, hout⟩

theorem dropFrom_merges (first second : Int) (key : FragKey) (haveFirst : Bool)
    (flist : List FragRange) :
    ∃ l, (∀ fr ∈ l, fr.recDs.sample = none) ∧
      Merges (l ++ flist) (dropFrom host first second key haveFirst flist).2 := by
  cases flist with
  | nil => exact ⟨[], by simp, .refl _⟩
  | cons front rest =>
    simp only [dropFrom]
    split
    · exact insert_dummy host first second key true (front :: rest)
    · generalize fitsGap first second (front :: rest) = inGap
      obtain ⟨l, hl, hmerges⟩ : ∃ l, (∀ fr ∈ l, fr.recDs.sample = none) ∧ Merges (l ++ front :: rest)
          (if inGap then (TransportReassembly.insert first second (dummy host key true) (front :: rest)).2
            else front :: rest) := by
        split
        · exact insert_dummy host first second key true (front :: rest)
        · exact ⟨[], by simp, .refl _⟩
      generalize (if inGap then (TransportReassembly.insert first second (dummy host key true)
        (front :: rest)).2 else front :: rest) = flist at hmerges
      split
      · obtain ⟨l', hl', hback⟩ := insert_dummy host first second key inGap (backWithMore flist)
        refine ⟨l' ++ l, ?_, ?_⟩
        · exact fun fr hfr => (List.mem_append.mp hfr).elim (hl' fr) (hl fr)
        · rw [List.append_assoc]
          have hmore := (merges_backWithMore flist).append_left l'
          exact ((hmerges.append_left l').trans hmore).trans hback
      · exact ⟨l, hl, hmerges⟩

theorem dropFrom_first {first second : Int} {key : FragKey} {haveFirst : Bool}
    {flist : List FragRange} (hfirst : (dropFrom host first second key haveFirst flist).1 = true)
    (hseq : ∀ fr ∈ flist, fr.recDs.sample ≠ none → (fr.recDs.header.sequenceHigh,
      fr.recDs.header.sequenceLow) = (key.sequenceHigh, key.sequenceLow)) :
    ∃ fr ∈ (dropFrom host first second key haveFirst flist).2, fr.recDs.sample = none := by
  cases flist with
  | nil => cases hfirst
  | cons front rest =>
    by_cases hfront : second = front.first - 1 ∧ haveFirst = false
    · have heq : dropFrom host first second key haveFirst (front :: rest) =
          (true, (TransportReassembly.insert first second (dummy host key true) (front :: rest)).2) := by
        simp only [dropFrom, if_pos hfront]
      rw [heq]
      by_cases hlast : second = SequenceNumber.maxValue
      · have hinsert : TransportReassembly.insert first second (dummy host key true) (front :: rest) =
            (true, ⟨first, second, dummy host key true⟩ :: front :: rest) := by
          simp only [TransportReassembly.insert, if_pos (Or.inl hlast)]
        rw [hinsert]
        exact ⟨_, List.mem_cons_self, rfl⟩
      by_cases hnone : front.recDs.sample = none
      · obtain ⟨l, -, hmerges⟩ := insert_dummy host first second key true (front :: rest)
        exact hmerges.null ⟨front, List.mem_append_right _ List.mem_cons_self, hnone⟩
      · obtain ⟨joined, hjoin, -⟩ := @join_spec (dummy host key true).header
          front.recDs.header rfl (hseq front List.mem_cons_self hnone).symm
        have hinsert : TransportReassembly.insert first second (dummy host key true) (front :: rest) =
            (true, combined ⟨first, second, dummy host key true⟩ front joined :: rest) := by
          have hbefore : ¬ (second = SequenceNumber.maxValue ∨ second + 1 < front.first) := by omega
          have hleft : second + 1 = front.first := by omega
          simp only [TransportReassembly.insert, if_neg hbefore, if_pos hleft, hjoin, combined]
        rw [hinsert]
        exact ⟨_, List.mem_cons_self, rfl⟩
    · have heq : (dropFrom host first second key haveFirst (front :: rest)).1 = false := by
        simp only [dropFrom, if_neg hfront]
      rw [heq] at hfirst
      cases hfirst

end

section

variable {key : FragKey} {r : Reassembly}

theorem mem_addFirst {key' : FragKey} {haveFirst : List FragKey} :
    key ∈ addFirst key' haveFirst ↔ key = key' ∨ key ∈ haveFirst := by
  unfold addFirst
  split_ifs with hmem
  · exact ⟨Or.inr, fun h => h.elim (fun heq => heq ▸ hmem) id⟩
  · simp [or_comm]

/-- `fragments_` has one entry for each key. -/
def Distinct (r : Reassembly) : Prop := (r.fragments.map Prod.fst).Nodup

theorem Distinct.store (h : Distinct r) (flist : List FragRange) (haveFirst : List FragKey) :
    Distinct ⟨store key flist r.fragments, haveFirst⟩ := by
  have hkeys : (TransportReassembly.store key flist r.fragments).map Prod.fst =
      r.fragments.map Prod.fst := by
    unfold TransportReassembly.store
    rw [List.map_map]
    apply List.map_congr_left
    intro entry _
    simp only [Function.comp_apply]
    split_ifs with hkey
    · exact hkey.symm
    · rfl
  unfold Distinct
  rwa [hkeys]

theorem Distinct.erase (h : Distinct r) (haveFirst : List FragKey) :
    Distinct ⟨r.fragments.filter fun entry => entry.1 ≠ key, haveFirst⟩ :=
  List.Nodup.sublist (List.filter_sublist.map Prod.fst) h

theorem Distinct.reassembleI (h : Distinct r) (first second : Int) (firstFrag : Bool)
    (data : ReceivedDataSample) : Distinct (r.reassembleI first second firstFrag data).2 := by
  unfold Reassembly.reassembleI
  dsimp only
  generalize (if firstFrag then addFirst data.key r.haveFirst else r.haveFirst) = haveFirst
  cases hlookup : r.fragments.lookup data.key with
  | none =>
    change ((r.fragments ++ [_]).map Prod.fst).Nodup
    rw [List.map_append, List.nodup_append']
    refine ⟨h, List.nodup_singleton _, ?_⟩
    rw [List.map_singleton, List.disjoint_singleton]
    intro hmem
    obtain ⟨entry, hentry, hkey⟩ := List.mem_map.mp hmem
    have hsome := Library.AssociationList.lookup_isSome hentry
    rw [hkey, hlookup] at hsome
    cases hsome
  | some flist =>
    simp only
    split
    · exact h.store _ _
    · split
      · split
        · exact h.erase _
        · exact h.store _ _
      · exact h.store _ _

variable (host : Library.ByteOrder) (first second : Int)

theorem Distinct.dataUnavailable (h : Distinct r) : Distinct (r.dataUnavailable host first second) := by
  change ((r.fragments.map _).map Prod.fst).Nodup
  rw [List.map_map]
  exact h

theorem dataUnavailable_lookup : (r.dataUnavailable host first second).fragments.lookup key =
    (r.fragments.lookup key).map fun flist => (r.dropEntry host first second key flist).2 :=
  Library.AssociationList.lookup_map_values
    (fun key flist => (r.dropEntry host first second key flist).2) r.fragments

theorem mem_dataUnavailable_haveFirst (h : Distinct r) :
    key ∈ (r.dataUnavailable host first second).haveFirst ↔ key ∈ r.haveFirst ∨
      ∃ flist, r.fragments.lookup key = some flist ∧
        (r.dropEntry host first second key flist).1 = true := by
  have hfold : ∀ (entries : List (FragKey × List FragRange)) (haveFirst : List FragKey),
      key ∈ entries.foldl (fun haveFirst entry =>
        if (r.dropEntry host first second entry.1 entry.2).1 then addFirst entry.1 haveFirst
        else haveFirst) haveFirst ↔
      key ∈ haveFirst ∨ ∃ flist, (key, flist) ∈ entries ∧
        (r.dropEntry host first second key flist).1 = true := by
    intro entries
    induction entries with
    | nil => simp
    | cons entry rest ih =>
      intro haveFirst
      rw [List.foldl_cons, ih]
      obtain ⟨key', flist'⟩ := entry
      by_cases hdrop : (r.dropEntry host first second key' flist').1 = true
      · rw [if_pos hdrop, mem_addFirst]
        constructor
        · rintro ((rfl | hmem) | ⟨flist, hmem, hfirst⟩)
          · exact .inr ⟨flist', List.mem_cons_self, hdrop⟩
          · exact .inl hmem
          · exact .inr ⟨flist, List.mem_cons_of_mem _ hmem, hfirst⟩
        · rintro (hmem | ⟨flist, hmem, hfirst⟩)
          · exact .inl (.inr hmem)
          · obtain heq | hmem := List.mem_cons.mp hmem
            · cases heq
              exact .inl (.inl rfl)
            · exact .inr ⟨flist, hmem, hfirst⟩
      · rw [if_neg hdrop]
        refine or_congr Iff.rfl (exists_congr fun flist => and_congr_left fun hfirst => ?_)
        rw [List.mem_cons]
        refine ⟨.inr, fun hmem => hmem.resolve_left fun heq => hdrop ?_⟩
        cases heq
        exact hfirst
  refine (hfold r.fragments r.haveFirst).trans (or_congr Iff.rfl (exists_congr fun flist => ?_))
  rw [Library.AssociationList.mem_iff_lookup h]

end

end OpenDDS.Source.TransportReassembly
