import OpenDDS.Library.SortedMap
import OpenDDS.Source.DisjointSequence

/-!
`SingleSendBuffer` (dds/DCPS/transport/framework/TransportSendBuffer.{h,inl,cpp}): the PDUs
that a transport keeps for retransmission. An entry of `buffers_` with two null pointers is
`none`; its PDUs are in `fragments_` then. What the buffer and the blocks of a PDU are stays
abstract, and `resend_one` appends to the list of PDUs that are sent again.

`retain_buffer` copies out what one publication contributed to a PDU. Its outcome is an argument:
the PDU with its blocks replaced, or `none` for `REMOVE_ERROR`.
-/
namespace OpenDDS.Source
open Library

structure SingleSendBuffer (PDU : Type) where
  capacity_ : Nat
  buffers_ : SortedMap Int (Option PDU)
  fragments_ : Option (SortedMap Int (SortedMap Int PDU))

namespace SingleSendBuffer
open DisjointSequence

inductive Fault where
  /-- `buffers_.erase` with an iterator into another map. -/
  | foreignIterator
  /-- The loop does not advance. -/
  | noProgress
  /-- An iterator at the end was dereferenced. -/
  | endIterator
  /-- `std::exception`, thrown by `low()` and `high()` of an empty buffer. -/
  | emptyBuffer
  | sequence (fault : DisjointSequence.Fault)
  deriving DecidableEq, Repr

variable {PDU : Type}

def construct (capacity : Nat) : SingleSendBuffer PDU := ⟨capacity, .empty, none⟩

/-- `fragments_->find(sequence)`. -/
def fragmentsOf (b : SingleSendBuffer PDU) (sequence : Int) : Option (SortedMap Int PDU) :=
  b.fragments_.bind fun fragments => fragments.find sequence

def release (b : SingleSendBuffer PDU) (buffer_iter : Int × Option PDU) : SingleSendBuffer PDU :=
  match buffer_iter.2 with
  | some _ => { b with buffers_ := b.buffers_.erase buffer_iter.1 }
  | none =>
    { b with
      buffers_ := b.buffers_.erase buffer_iter.1
      fragments_ := b.fragments_.map fun fragments => fragments.erase buffer_iter.1 }

def release_all (b : SingleSendBuffer PDU) : SingleSendBuffer PDU :=
  b.buffers_.entries.foldl release b

/-- `retain_buffer` on the PDUs of one sample, or `none` after the first `REMOVE_ERROR`. -/
def retainFragments (retain_buffer : Int → PDU → Option PDU) (buffers : SortedMap Int PDU) :
    Option (SortedMap Int PDU) :=
  buffers.entries.foldlM (fun buffers entry =>
    (retain_buffer entry.1 entry.2).map (buffers.put entry.1)) buffers

/-- The loop of `retain_all` over the entries that `it` still has in front of it. A fragment that
cannot be retained is released through the iterator `bm_it` of its own map, which `release`
hands to `buffers_.erase`. -/
def retainLoop (retain_buffer : Int → Option Int → PDU → Option PDU) :
    List (Int × Option PDU) → SingleSendBuffer PDU → Except Fault (SingleSendBuffer PDU)
  | [], b => .ok b
  | (sequence, some pdu) :: rest, b =>
    match retain_buffer sequence none pdu with
    | none => retainLoop retain_buffer rest (b.release (sequence, some pdu))
    | some pdu =>
      retainLoop retain_buffer rest { b with buffers_ := b.buffers_.put sequence (some pdu) }
  | (sequence, none) :: rest, b =>
    match b.fragments_ with
    | none => .error .noProgress
    | some fragments =>
      match fragments.find sequence with
      | none => retainLoop retain_buffer rest b
      | some buffers =>
        match retainFragments (fun fragment => retain_buffer sequence (some fragment)) buffers with
        | none => .error .foreignIterator
        | some buffers =>
          retainLoop retain_buffer rest
            { b with fragments_ := some (fragments.put sequence buffers) }

def retain_all (b : SingleSendBuffer PDU) (retain_buffer : Int → Option Int → PDU → Option PDU) :
    Except Fault (SingleSendBuffer PDU) :=
  retainLoop retain_buffer b.buffers_.entries b

def check_capacity (b : SingleSendBuffer PDU) : SingleSendBuffer PDU :=
  if b.buffers_.size = b.capacity_ then
    match b.buffers_.entries with
    | [] => b
    | it :: _ => b.release it
  else b

def insert (b : SingleSendBuffer PDU) (sequence : Int) (pdu : PDU) : SingleSendBuffer PDU :=
  let b := b.check_capacity
  { b with buffers_ := b.buffers_.put sequence (some pdu) }

def insert_fragment (b : SingleSendBuffer PDU) (sequence fragment : Int) (pdu : PDU) :
    SingleSendBuffer PDU :=
  let b := b.check_capacity
  let fragments := b.fragments_.getD .empty
  let buffers := (fragments.find sequence).getD .empty
  { b with
    buffers_ := b.buffers_.put sequence none
    fragments_ := some (fragments.put sequence (buffers.put fragment pdu)) }

/-- What an entry has to send: its own PDU, or those of all its fragments. -/
def pdus (b : SingleSendBuffer PDU) : Int × Option PDU → List PDU
  | (_, some pdu) => [pdu]
  | (sequence, none) =>
    match b.fragmentsOf sequence with
    | none => []
    | some buffers => buffers.entries.map Prod.snd

/-- The loop of `resend_i` for so many iterations at most: the gaps, if they are asked for, and
the PDUs that were sent again. -/
def resendLoop (b : SingleSendBuffer PDU) (last : Int) :
    Nat → Int → Option (List RangeList.Range) → Except Fault (Option (List RangeList.Range) × List PDU)
  | 0, _, _ => .error (.sequence .iterations)
  | fuel + 1, sequence, gaps =>
    if sequence ≤ last then
      match b.buffers_.find sequence with
      | some buffer =>
        (resendLoop b last fuel (SequenceNumber.next sequence) gaps).map fun result =>
          (result.1, b.pdus (sequence, buffer) ++ result.2)
      | none =>
        match gaps with
        | none => resendLoop b last fuel (SequenceNumber.next sequence) none
        | some seqs =>
          match DisjointSequence.insert seqs sequence with
          | .error fault => .error (.sequence fault)
          | .ok (_, seqs) => resendLoop b last fuel (SequenceNumber.next sequence) (some seqs)
    else .ok (gaps, [])

def low (b : SingleSendBuffer PDU) : Except Fault Int :=
  match b.buffers_.entries.head? with
  | none => .error .emptyBuffer
  | some entry => .ok entry.1

def high (b : SingleSendBuffer PDU) : Except Fault Int :=
  match b.buffers_.entries.getLast? with
  | none => .error .emptyBuffer
  | some entry => .ok entry.1

structure Resent (PDU : Type) where
  gaps : Option (List RangeList.Range)
  pdus : List PDU
  result : Bool

def resend_i (fuel : Nat) (b : SingleSendBuffer PDU) (range : RangeList.Range)
    (gaps : Option (List RangeList.Range)) : Except Fault (Resent PDU) := do
  let (gaps, pdus) ← b.resendLoop range.2 fuel range.1 gaps
  -- `&&` evaluates `high()` only when the first comparison holds.
  if range.1 ≥ (← b.low) then
    return ⟨gaps, pdus, range.2 ≤ (← b.high)⟩
  else
    return ⟨gaps, pdus, false⟩

/-- The inner loop of `resend_fragments_i`, from the iterator `it` on. -/
def fragmentLoop (it2 : List (Int × PDU)) :
    List (Int × PDU) → Int → Except Fault (Int × List PDU)
  | [], _ => .error .endIterator
  | buffer :: rest, sent =>
    let resent := if sent < buffer.1 then [buffer.2] else []
    let sent := if sent < buffer.1 then buffer.1 else sent
    if (buffer :: rest).length = it2.length then .ok (sent, resent)
    else (fragmentLoop it2 rest sent).map fun result => (result.1, resent ++ result.2)

def requestedLoop (buffers : SortedMap Int PDU) :
    List RangeList.Range → Int → Except Fault (List PDU)
  | [], _ => .ok []
  | range :: psr, sent =>
    match buffers.lowerBound range.1 with
    | [] => .ok []
    | it =>
      match fragmentLoop (buffers.lowerBound range.2) it sent with
      | .error fault => .error fault
      | .ok (sent, resent) => (requestedLoop buffers psr sent).map (resent ++ ·)

/-- `resend_fragments_i`: the buffer, where `operator[]` leaves an entry for the number, and the
PDUs that were sent again. -/
def resend_fragments_i (b : SingleSendBuffer PDU) (seq : Int)
    (requested_frags : List RangeList.Range) : Except Fault (SingleSendBuffer PDU × List PDU) :=
  match b.fragments_ with
  | none => .ok (b, [])
  | some fragments =>
    if fragments.size = 0 ∨ empty requested_frags then .ok (b, [])
    else
      let buffers := (fragments.find seq).getD .empty
      (requestedLoop buffers requested_frags SequenceNumber.zero).map fun resent =>
        ({ b with fragments_ := some (fragments.put seq buffers) }, resent)

section

variable {b : SingleSendBuffer PDU} {k : Int}

@[simp] theorem release_capacity (b : SingleSendBuffer PDU) (it : Int × Option PDU) :
    (b.release it).capacity_ = b.capacity_ := by
  unfold release
  split <;> rfl

@[simp] theorem release_buffers (b : SingleSendBuffer PDU) (it : Int × Option PDU) :
    (b.release it).buffers_ = b.buffers_.erase it.1 := by
  unfold release
  split <;> rfl

theorem release_fragmentsOf_self (b : SingleSendBuffer PDU) (k : Int) :
    (b.release (k, none)).fragmentsOf k = none := by
  cases hfragments : b.fragments_ with
  | none => simp [release, fragmentsOf, hfragments]
  | some fragments => simp [release, fragmentsOf, hfragments, SortedMap.find_erase]

theorem release_fragmentsOf_of_ne {it : Int × Option PDU} (h : it ≠ (k, none)) :
    (b.release it).fragmentsOf k = b.fragmentsOf k := by
  obtain ⟨sequence, buffer⟩ := it
  cases buffer with
  | some pdu => rfl
  | none =>
    have hk : k ≠ sequence := fun hk => h (by rw [hk])
    cases hfragments : b.fragments_ with
    | none => simp [release, fragmentsOf, hfragments]
    | some fragments => simp [release, fragmentsOf, hfragments, SortedMap.find_erase, hk]

theorem releases_effects (entries : List (Int × Option PDU)) (b : SingleSendBuffer PDU) :
    (entries.foldl release b).capacity_ = b.capacity_ ∧
      (∀ k, (entries.foldl release b).buffers_.find k =
        if k ∈ entries.map Prod.fst then none else b.buffers_.find k) ∧
      ∀ k, (entries.foldl release b).fragmentsOf k = none ∨
        (k, none) ∉ entries ∧ (entries.foldl release b).fragmentsOf k = b.fragmentsOf k := by
  induction entries generalizing b with
  | nil => simp
  | cons it rest ih =>
    obtain ⟨hcapacity, hbuffers, hfragments⟩ := ih (b.release it)
    refine ⟨hcapacity.trans (release_capacity b it), fun k => ?_, fun k => ?_⟩
    · rw [List.foldl_cons, hbuffers, release_buffers, SortedMap.find_erase, List.map_cons]
      by_cases hrest : k ∈ rest.map Prod.fst
      · simp [hrest]
      · simp only [List.mem_cons, hrest, or_false, if_false]
    · rcases hfragments k with hnone | ⟨hmem, hsame⟩
      · exact .inl hnone
      · rw [List.foldl_cons, hsame]
        by_cases hit : it = (k, none)
        · subst hit
          exact .inl (release_fragmentsOf_self b k)
        · refine .inr ⟨fun hcons => ?_, release_fragmentsOf_of_ne hit⟩
          rcases List.mem_cons.mp hcons with heq | hrest
          · exact hit heq.symm
          · exact hmem hrest

theorem check_capacity_cases (b : SingleSendBuffer PDU) :
    (b.check_capacity = b ∧ (b.buffers_.size = b.capacity_ → b.buffers_.entries = [])) ∨
      ∃ it rest, b.buffers_.size = b.capacity_ ∧ b.buffers_.entries = it :: rest ∧
        b.check_capacity = b.release it := by
  unfold check_capacity
  split
  case isTrue hfull =>
    split
    case h_1 hnil => exact .inl ⟨rfl, fun _ => hnil⟩
    case h_2 it rest hcons => exact .inr ⟨it, rest, hfull, hcons, rfl⟩
  case isFalse hroom => exact .inl ⟨rfl, fun hfull => absurd hfull hroom⟩

@[simp] theorem check_capacity_capacity (b : SingleSendBuffer PDU) :
    b.check_capacity.capacity_ = b.capacity_ := by
  rcases check_capacity_cases b with ⟨heq, -⟩ | ⟨it, rest, -, -, heq⟩
  · rw [heq]
  · rw [heq, release_capacity]

theorem check_capacity_size (hpos : 1 ≤ b.capacity_) (hsize : b.buffers_.size ≤ b.capacity_) :
    b.check_capacity.buffers_.size < b.capacity_ := by
  rcases check_capacity_cases b with ⟨heq, hempty⟩ | ⟨it, rest, hfull, hcons, heq⟩
  · rw [heq]
    by_contra hlt
    have hnil := hempty (by omega)
    have hzero : b.buffers_.size = 0 := by rw [SortedMap.size, hnil, List.length_nil]
    omega
  · have hmem : it.1 ∈ b.buffers_.keys := by simp [SortedMap.keys, hcons]
    have hlt := SortedMap.size_erase_lt hmem
    rw [heq, release_buffers]
    omega

theorem insert_fragmentsOf_self (b : SingleSendBuffer PDU) (sequence fragment : Int) (pdu : PDU) :
    (b.insert_fragment sequence fragment pdu).fragmentsOf sequence =
      some (((b.check_capacity.fragmentsOf sequence).getD .empty).put fragment pdu) := by
  cases hfragments : b.check_capacity.fragments_ with
  | none => simp [insert_fragment, fragmentsOf, SortedMap.find_put, hfragments]
  | some fragments => simp [insert_fragment, fragmentsOf, SortedMap.find_put, hfragments]

theorem insert_fragmentsOf_of_ne {sequence fragment : Int} {pdu : PDU} (h : k ≠ sequence) :
    (b.insert_fragment sequence fragment pdu).fragmentsOf k = b.check_capacity.fragmentsOf k := by
  cases hfragments : b.check_capacity.fragments_ with
  | none => simp [insert_fragment, fragmentsOf, SortedMap.find_put, hfragments, h]
  | some fragments => simp [insert_fragment, fragmentsOf, SortedMap.find_put, hfragments, h]

end

section

variable {retain_buffer : Int → Option Int → PDU → Option PDU} {b after : SingleSendBuffer PDU}

theorem retainFragments_keys {retain : Int → PDU → Option PDU}
    {buffers retained : SortedMap Int PDU} (h : retainFragments retain buffers = some retained) :
    retained.keys = buffers.keys := by
  have hloop : ∀ (entries : List (Int × PDU)) (start : SortedMap Int PDU),
      (∀ entry ∈ entries, entry.1 ∈ start.keys) →
        entries.foldlM (fun buffers entry => (retain entry.1 entry.2).map (buffers.put entry.1))
          start = some retained → retained.keys = start.keys := by
    intro entries
    induction entries with
    | nil =>
      intro start _ heq
      cases heq
      rfl
    | cons entry rest ih =>
      intro start hkeys heq
      cases hretain : retain entry.1 entry.2 with
      | none => simp [hretain] at heq
      | some pdu =>
        have hsame : (start.put entry.1 pdu).keys = start.keys :=
          SortedMap.keys_eq fun k => by
            rw [SortedMap.mem_keys_put]
            exact or_iff_right_of_imp fun hk => hk ▸ hkeys entry List.mem_cons_self
        rw [← hsame]
        refine ih _ (fun other hother => ?_) (by simpa [hretain] using heq)
        rw [hsame]
        exact hkeys other (List.mem_cons_of_mem _ hother)
  exact hloop _ _ (fun entry hentry => List.mem_map_of_mem hentry) h

theorem retainFragments_isSome {retain : Int → PDU → Option PDU} {buffers : SortedMap Int PDU}
    (h : ∀ fragment pdu, (fragment, pdu) ∈ buffers.entries → retain fragment pdu ≠ none) :
    ∃ retained, retainFragments retain buffers = some retained := by
  have hloop : ∀ (entries : List (Int × PDU)) (start : SortedMap Int PDU),
      (∀ entry ∈ entries, retain entry.1 entry.2 ≠ none) →
        ∃ retained, entries.foldlM (fun buffers entry =>
          (retain entry.1 entry.2).map (buffers.put entry.1)) start = some retained := by
    intro entries
    induction entries with
    | nil => exact fun start _ => ⟨start, rfl⟩
    | cons entry rest ih =>
      intro start hretain
      obtain ⟨pdu, hpdu⟩ := Option.ne_none_iff_exists'.mp (hretain entry List.mem_cons_self)
      obtain ⟨retained, hrest⟩ := ih (start.put entry.1 pdu) fun other hother =>
        hretain other (List.mem_cons_of_mem _ hother)
      refine ⟨retained, ?_⟩
      rw [List.foldlM_cons, hpdu]
      exact hrest
  exact hloop _ _ fun entry hentry => h entry.1 entry.2 hentry

/-- What a pass over entries with different keys leaves: a PDU of its own is retained or released,
the fragments keep their numbers. -/
theorem retainLoop_effects {entries : List (Int × Option PDU)}
    (hsorted : entries.Pairwise fun a b => a.1 < b.1)
    (h : retainLoop retain_buffer entries b = .ok after) :
    after.capacity_ = b.capacity_ ∧
      (∀ k, (after.fragmentsOf k).map SortedMap.keys = (b.fragmentsOf k).map SortedMap.keys) ∧
      ∀ k, after.buffers_.find k =
        match SortedMap.findIn k entries with
        | some (some pdu) => (retain_buffer k none pdu).map some
        | _ => b.buffers_.find k := by
  induction entries generalizing b with
  | nil =>
    cases h
    exact ⟨rfl, fun _ => rfl, fun _ => rfl⟩
  | cons entry rest ih =>
    obtain ⟨sequence, buffer⟩ := entry
    have hrest := (List.pairwise_cons.mp hsorted).2
    have hother : SortedMap.findIn sequence rest = none := by
      cases hfind : SortedMap.findIn sequence rest with
      | none => rfl
      | some buffer' =>
        have hmem := (SortedMap.findIn_eq_some hrest).mp hfind
        exact absurd ((List.pairwise_cons.mp hsorted).1 _ hmem) (lt_irrefl _)
    cases buffer with
    | some pdu =>
      rw [retainLoop] at h
      cases hretain : retain_buffer sequence none pdu with
      | none =>
        rw [hretain] at h
        obtain ⟨hcapacity, hfragments, hfind⟩ := ih hrest h
        refine ⟨hcapacity.trans (release_capacity _ _), fun k => ?_, fun k => ?_⟩
        · rw [hfragments, release_fragmentsOf_of_ne (by simp)]
        · rw [hfind, release_buffers, SortedMap.find_erase, SortedMap.findIn]
          by_cases hk : sequence = k
          · subst hk
            simp [hother, hretain]
          · simp [hk, Ne.symm hk]
      | some retained =>
        rw [hretain] at h
        obtain ⟨hcapacity, hfragments, hfind⟩ := ih hrest h
        refine ⟨hcapacity, hfragments, fun k => ?_⟩
        rw [hfind, SortedMap.find_put, SortedMap.findIn]
        by_cases hk : sequence = k
        · subst hk
          simp [hother, hretain]
        · simp [hk, Ne.symm hk]
    | none =>
      rw [retainLoop] at h
      have hskip : ∀ k, SortedMap.findIn k ((sequence, none) :: rest) =
          if sequence = k then some none else SortedMap.findIn k rest := fun _ => rfl
      -- Only the fragments of this number change, and they keep their numbers.
      have hgoal : ∀ b' : SingleSendBuffer PDU, b'.capacity_ = b.capacity_ →
          b'.buffers_ = b.buffers_ →
          (∀ k, (b'.fragmentsOf k).map SortedMap.keys = (b.fragmentsOf k).map SortedMap.keys) →
          retainLoop retain_buffer rest b' = .ok after → after.capacity_ = b.capacity_ ∧
            (∀ k, (after.fragmentsOf k).map SortedMap.keys = (b.fragmentsOf k).map SortedMap.keys) ∧
            ∀ k, after.buffers_.find k =
              match SortedMap.findIn k ((sequence, none) :: rest) with
              | some (some pdu) => (retain_buffer k none pdu).map some
              | _ => b.buffers_.find k := by
        intro b' hcapacity' hbuffers' hfragments' heq
        obtain ⟨hcapacity, hfragments, hfind⟩ := ih hrest heq
        refine ⟨hcapacity.trans hcapacity', fun k => (hfragments k).trans (hfragments' k),
          fun k => ?_⟩
        rw [hfind, hbuffers', hskip]
        by_cases hk : sequence = k
        · subst hk
          simp [hother]
        · simp [hk]
      cases hfragments : b.fragments_ with
      | none => simp [hfragments] at h
      | some fragments =>
        simp only [hfragments] at h
        cases hbuffers : fragments.find sequence with
        | none =>
          simp only [hbuffers] at h
          exact hgoal b rfl rfl (fun _ => rfl) h
        | some buffers =>
          simp only [hbuffers] at h
          cases hretain : retainFragments (fun fragment => retain_buffer sequence (some fragment))
              buffers with
          | none => simp [hretain] at h
          | some retained =>
            simp only [hretain] at h
            refine hgoal { b with fragments_ := some (fragments.put sequence retained) } rfl rfl
              (fun k => ?_) h
            have hkeys := retainFragments_keys hretain
            by_cases hk : k = sequence
            · subst hk
              simp [fragmentsOf, hfragments, SortedMap.find_put, hbuffers, hkeys]
            · simp [fragmentsOf, hfragments, SortedMap.find_put, hk]

/-- What `retain_all` leaves of an entry. -/
def keptBuffer (retain_buffer : Int → Option Int → PDU → Option PDU) (k : Int) :
    Option (Option PDU) → Option (Option PDU)
  | some (some pdu) => (retain_buffer k none pdu).map some
  | buffer => buffer

theorem keptBuffer_eq_some_none {buffer : Option (Option PDU)} {k : Int} :
    keptBuffer retain_buffer k buffer = some none ↔ buffer = some none := by
  unfold keptBuffer
  split <;> simp

theorem retain_all_effects (h : b.retain_all retain_buffer = .ok after) :
    after.capacity_ = b.capacity_ ∧
      (∀ k, (after.fragmentsOf k).map SortedMap.keys = (b.fragmentsOf k).map SortedMap.keys) ∧
      ∀ k, after.buffers_.find k = keptBuffer retain_buffer k (b.buffers_.find k) := by
  obtain ⟨hcapacity, hfragments, hfind⟩ := retainLoop_effects b.buffers_.sorted h
  refine ⟨hcapacity, hfragments, fun k => ?_⟩
  have hlisted : SortedMap.findIn k b.buffers_.entries = b.buffers_.find k := rfl
  rw [hfind, hlisted]
  cases b.buffers_.find k with
  | none => rfl
  | some buffer => cases buffer <;> rfl

theorem retainLoop_ok {entries : List (Int × Option PDU)}
    (hstored : ∀ k, (k, none) ∈ entries → ∃ buffers, b.fragmentsOf k = some buffers)
    (hretain : ∀ k buffers fragment pdu, (k, none) ∈ entries → b.fragmentsOf k = some buffers →
      (fragment, pdu) ∈ buffers.entries → retain_buffer k (some fragment) pdu ≠ none)
    (hsorted : entries.Pairwise fun a b => a.1 < b.1) :
    ∃ after, retainLoop retain_buffer entries b = .ok after := by
  induction entries generalizing b with
  | nil => exact ⟨b, rfl⟩
  | cons entry rest ih =>
    obtain ⟨sequence, buffer⟩ := entry
    obtain ⟨hlater, hrest⟩ := List.pairwise_cons.mp hsorted
    -- A pass over the rest sees the fragments of its own numbers as they were.
    have hnext : ∀ b' : SingleSendBuffer PDU,
        (∀ k, (k, none) ∈ rest → b'.fragmentsOf k = b.fragmentsOf k) →
        ∃ after, retainLoop retain_buffer rest b' = .ok after := by
      intro b' hsame
      refine ih (fun k hk => ?_) (fun k buffers fragment pdu hk hbuffers hpdu => ?_) hrest
      · rw [hsame k hk]
        exact hstored k (List.mem_cons_of_mem _ hk)
      · rw [hsame k hk] at hbuffers
        exact hretain k buffers fragment pdu (List.mem_cons_of_mem _ hk) hbuffers hpdu
    cases buffer with
    | some pdu =>
      rw [retainLoop]
      cases retain_buffer sequence none pdu with
      | none => exact hnext _ fun k _ => release_fragmentsOf_of_ne (by simp)
      | some retained => exact hnext _ fun _ _ => rfl
    | none =>
      obtain ⟨buffers, hbuffers⟩ := hstored sequence List.mem_cons_self
      obtain ⟨fragments, hfragments, hfound⟩ := Option.bind_eq_some_iff.mp hbuffers
      obtain ⟨retained, hretained⟩ := retainFragments_isSome fun fragment pdu hpdu =>
        hretain sequence buffers fragment pdu List.mem_cons_self hbuffers hpdu
      simp only [retainLoop, hfragments, hfound, hretained]
      refine hnext { b with fragments_ := some (fragments.put sequence retained) } fun k hk => ?_
      have hne : k ≠ sequence := (hlater (k, none) hk).ne'
      simp [fragmentsOf, hfragments, SortedMap.find_put, hne]

end

end SingleSendBuffer

end OpenDDS.Source
