import Mathlib.Data.List.MinMax
import OpenDDS.Source.BitmapScan
import OpenDDS.Source.RtpsWriter

/-!
# GAP submessages of the nack-reply timer

`send_nack_replies` answers a request with a GAP for every number that is not in the
send buffer. That is right for samples that were aged off, and wrong for numbers the
writer has not reached yet: with an empty send buffer the whole request is declared
irrelevant, and nothing compares it with `expected_`. A reader that processes such a
GAP skips the sample when it is written later.

Requests are counted as the bitmap scan decodes them, and the sets pending together must lie
close enough for the scan not to wrap.
-/
namespace OpenDDS.Guarantees.GapSoundness
open Library Library.RangeList Source Source.SequenceNumber Source.DisjointSequence
open Source.RtpsMessages Source.RtpsWriter

/-- Number `n` is at most a number that was customized. -/
def Assigned (assigned : List Int) (n : Int) : Prop := ∃ m ∈ assigned, n ≤ m

def requestEnd (sn : SequenceNumberSet) : Int := sn.bitmapBase.value + sn.numBits

/-- What the nack-reply timer finds pending refers to customized numbers only. -/
structure RequestsAssigned (s : State) : Prop where
  decoded : ∀ p ∈ pendingChanges s.writer, requestsHeartbeatHigh s.writer p.1 p.2 = false →
    ∀ k, Decodes p.2.bitmap p.2.numBits k → Assigned s.assigned (p.2.bitmapBase.value + k)
  frags : ∀ seq ∈ pendingFrags s.writer, Assigned s.assigned seq
  ends : ∀ p ∈ pendingChanges s.writer, requestEnd p.2 ≤ maxValue
  near : ∀ p ∈ pendingChanges s.writer, ∀ q ∈ pendingChanges s.writer,
    requestEnd q.2 < p.2.bitmapBase.value + 2 ^ 32

def SoundSteps (capacity : Nat) (s : State) (e : Event) (after : State) : Prop :=
  Steps capacity s e after ∧ match e with
    | .nackReply _ => RequestsAssigned s
    | _ => True

structure WriterInv (s : State) : Prop where
  buffered : ∀ seq ∈ s.writer.sendBuff.getD [], seq ∈ s.assigned
  frags : ∀ ri ∈ s.writer.remoteReaders, ∀ seq ∈ ri.requestedFrags, 1 ≤ seq ∧ seq ≤ maxValue
  sound : ∀ p ∈ s.gaps, ∀ n, p.1.Declares n → Assigned p.2 n

theorem initial_inv (readers : List (Nat × Bool × Bool)) (durable : Bool) :
    WriterInv (State.initial readers durable) where
  buffered := by simp [State.initial]
  frags := by
    intro ri hri seq hseq
    obtain ⟨r, -, rfl⟩ := List.mem_map.mp hri
    simp [ReaderInfo.associated] at hseq
  sound := by simp [State.initial]

variable {memory : Bitmap} {fuel : Nat} {last : Int}

section

variable {w : Writer} {assigned : List Int}

theorem insertKey_mem {seq x : Int} {keys : List Int} (h : x ∈ insertKey seq keys) :
    x = seq ∨ x ∈ keys := by
  induction keys with
  | nil => simpa [insertKey] using h
  | cons y ys ih =>
    unfold insertKey at h
    split at h
    · rcases List.mem_cons.mp h with rfl | h
      · exact .inr (by simp)
      · exact (ih h).imp id fun h => by simp [h]
    · split at h
      · exact .inr h
      · simpa using h

/-- A set of customized numbers, all positive and below the largest value. -/
structure Requested (assigned : List Int) (last : Int) (seqs : List Range) : Prop where
  wellFormed : WellFormed seqs
  positive : ∀ n, Covers seqs n → 1 ≤ n
  below : ∀ n, Covers seqs n → n < last
  assigned : ∀ n, Covers seqs n → Assigned assigned n

theorem requested_nil (last : Int) : Requested assigned last [] :=
  ⟨wellFormed_nil, by simp, by simp, by simp⟩

theorem Requested.insert {last seq : Int} {seqs after : List Range} {grew : Bool}
    (req : Requested assigned last seqs) (hpos : 1 ≤ seq) (hmax : seq ≤ maxValue)
    (hlast : seq < last) (hassigned : Assigned assigned seq)
    (h : DisjointSequence.insert seqs seq = .ok (grew, after)) : Requested assigned last after := by
  obtain ⟨grew', after', heq, hwf, hcov⟩ := insertI_spec (seq, seq) req.wellFormed
    (by simp only; omega) le_rfl hmax (fun ⟨_, r, hr, h₁, h₂, _⟩ => by
      have := req.wellFormed.canonical.nonempty r hr
      omega)
  unfold DisjointSequence.insert at h
  rw [heq, Except.ok.injEq, Prod.mk.injEq] at h
  obtain ⟨-, rfl⟩ := h
  have hcases : ∀ n, Covers after' n → Covers seqs n ∨ n = seq := by
    intro n hn
    exact ((hcov n).mp hn).imp id fun h => by simp only at h; omega
  refine ⟨hwf, fun n hn => ?_, fun n hn => ?_, fun n hn => ?_⟩ <;> rcases hcases n hn with h | rfl
  · exact req.positive n h
  · exact hpos
  · exact req.below n h
  · exact hlast
  · exact req.assigned n h
  · exact hassigned

theorem addRequests_requested (hbuffered : ∀ seq ∈ w.sendBuff.getD [], seq ∈ assigned)
    (hlast : last ≤ maxValue) (pending : List (ReaderInfo × SequenceNumberSet))
    (hdec : ∀ p ∈ pending, requestsHeartbeatHigh w p.1 p.2 = false →
      ∀ k, Decodes p.2.bitmap p.2.numBits k → Assigned assigned (p.2.bitmapBase.value + k))
    (hend : ∀ p ∈ pending, requestEnd p.2 ≤ last)
    (hnear : ∀ p ∈ pending, last < p.2.bitmapBase.value + 2 ^ 32) (seqs after : List Range)
    (req : Requested assigned last seqs) (h : addRequests fuel w seqs pending = .ok after) :
    Requested assigned last after := by
  induction pending generalizing seqs with
  | nil =>
    cases h
    exact req
  | cons p rest ih =>
    obtain ⟨ri, sn⟩ := p
    unfold addRequests at h
    cases hadd : addRequest fuel w ri seqs sn with
    | error fault => simp [hadd] at h
    | ok mid =>
      simp only [hadd] at h
      refine ih (fun p hp => hdec p (by simp [hp])) (fun p hp => hend p (by simp [hp]))
        (fun p hp => hnear p (by simp [hp])) mid ?_ h
      have hbase := sn.bitmapBase.value_pos
      have hbits := sn.numBits_le
      have hend' : requestEnd sn ≤ last := hend (ri, sn) (by simp)
      have hnear' : last < sn.bitmapBase.value + 2 ^ 32 := hnear (ri, sn) (by simp)
      unfold requestEnd at hend'
      unfold addRequest at hadd
      split at hadd
      · rename_i hhigh
        split at hadd
        · rename_i hcontains
          have hone : sn.numBits = 1 := by
            simp only [requestsHeartbeatHigh, Bool.and_eq_true, beq_iff_eq] at hhigh
            exact hhigh.1.1
          cases hins : DisjointSequence.insert seqs sn.bitmapBase.value with
          | error fault => simp [hins] at hadd
          | ok res =>
            simp only [hins, Except.ok.injEq] at hadd
            subst hadd
            refine req.insert hbase (by omega) (by omega) ⟨_, hbuffered _ ?_, le_rfl⟩ hins
            simpa using hcontains
        · cases hadd
          exact req
      · rename_i hhigh
        have hdec' := hdec (ri, sn) (by simp) (by simpa using hhigh)
        cases hins : insertBits fuel seqs sn.bitmapBase.value sn.numBits sn.bitmap with
        | error fault => simp [hins] at hadd
        | ok res =>
          simp only [hins, Except.ok.injEq] at hadd
          subst hadd
          obtain ⟨hwf, -, -, hadds⟩ := insertBits_spec req.wellFormed
            ⟨hbase, fun _ h0 => absurd (req.positive 0 h0) (by omega), by omega, by omega⟩ (by omega)
            (fun n hn => by have := req.below n hn; omega) hins
          refine ⟨hwf, fun n hn => ?_, fun n hn => ?_, fun n hn => ?_⟩ <;>
            rcases hadds n hn with h | ⟨k, rfl, hk⟩
          · exact req.positive n h
          · omega
          · exact req.below n h
          · have := hk.bound
            omega
          · exact req.assigned n h
          · exact hdec' k hk

theorem resendLoop_requested {buffers : List Int} (hlast : last ≤ maxValue) (count : Nat)
    (seq : Int) (resent resent' : List Int) (gaps after : List Range)
    (req : Requested assigned last gaps) (hpos : 1 ≤ seq) (hend : seq + count ≤ last)
    (hassigned : ∀ n, seq ≤ n → n < seq + count → Assigned assigned n)
    (h : resendLoop buffers count seq resent gaps = .ok (resent', after)) :
    Requested assigned last after := by
  induction count generalizing seq resent gaps with
  | zero =>
    cases h
    exact req
  | succ count ih =>
    unfold resendLoop at h
    have hnext : next seq = seq + 1 := next_of_lt (by omega)
    have hassigned' : ∀ n, seq + 1 ≤ n → n < seq + 1 + count → Assigned assigned n :=
      fun n h₁ h₂ => hassigned n (by omega) (by push_cast; omega)
    split at h
    · exact ih (next seq) _ _ req (by omega) (by push_cast at hend; omega) (hnext ▸ hassigned') h
    · cases hins : DisjointSequence.insert gaps seq with
      | error fault => simp [hins] at h
      | ok res =>
        simp only [hins] at h
        refine ih (next seq) _ _ ?_ (by omega) (by push_cast at hend; omega) (hnext ▸ hassigned') h
        exact req.insert hpos (by push_cast at hend; omega) (by push_cast at hend; omega)
          (hassigned seq le_rfl (by push_cast; omega)) hins

theorem resendAll_requested {buffers : List Int} (hlast : last ≤ maxValue)
    (ranges gaps after : List Range) (hasc : ∀ r ∈ ranges, r.1 ≤ r.2)
    (hbounds : ∀ n, Covers ranges n → 1 ≤ n ∧ n < last ∧ Assigned assigned n)
    (req : Requested assigned last gaps) (h : resendAll buffers ranges gaps = .ok after) :
    Requested assigned last after := by
  induction ranges generalizing gaps with
  | nil =>
    cases h
    exact req
  | cons range rest ih =>
    unfold resendAll at h
    cases hres : resendI buffers range gaps with
    | error fault => simp [hres] at h
    | ok res =>
      simp only [hres] at h
      refine ih res.2 (fun r hr => hasc r (by simp [hr]))
        (fun n hn => hbounds n ((covers_cons _ _ n).mpr (.inr hn))) ?_ h
      have hin : ∀ n, range.1 ≤ n → n ≤ range.2 → 1 ≤ n ∧ n < last ∧ Assigned assigned n :=
        fun n h₁ h₂ => hbounds n ((covers_cons _ _ n).mpr (.inl ⟨h₁, h₂⟩))
      have hle := hasc range (by simp)
      have hfirst := hin range.1 le_rfl hle
      have hsecond := hin range.2 hle le_rfl
      unfold resendI at hres
      split at hres
      · cases hres
      · exact resendLoop_requested hlast _ range.1 [] res.1 gaps res.2 req hfirst.1 (by omega)
          (fun n h₁ h₂ => (hin n h₁ (by omega)).2.2) hres

theorem nackfragGaps_requested (frags : List Int) (gaps after : List Range)
    (hfrags : ∀ seq ∈ frags, 1 ≤ seq ∧ seq ≤ maxValue ∧ seq < last ∧ Assigned assigned seq)
    (req : Requested assigned last gaps) (h : nackfragGaps w frags gaps = .ok after) :
    Requested assigned last after := by
  induction frags generalizing gaps with
  | nil =>
    cases h
    exact req
  | cons seq rest ih =>
    have hrest : ∀ seq ∈ rest, _ := fun seq hseq => hfrags seq (by simp [hseq])
    obtain ⟨hpos, hmax, hlast, hassigned⟩ := hfrags seq (by simp)
    unfold nackfragGaps at h
    split at h
    · cases h
    · split at h
      · exact ih gaps hrest req h
      · cases hins : DisjointSequence.insert gaps seq with
        | error fault => simp [hins] at h
        | ok res =>
          simp only [hins] at h
          exact ih res.2 hrest (req.insert hpos hmax hlast hassigned hins) h

theorem gapList_bound {gaps : List Range} (wf : WellFormed gaps) (hne : gaps ≠ []) {k : Nat}
    (hk : k < (gapList gaps memory).2) (hbit : bitSet (gapList gaps memory).1 k = true) :
    next (cumulativeAck gaps) + k ≤ high gaps := by
  unfold gapList at hk hbit
  cases hd : disjoint gaps with
  | false =>
    simp only [hd, Bool.false_eq_true, if_false] at hk hbit
    obtain rfl : k = 0 := by omega
    simp [bitSet, setWord] at hbit
  | true =>
    simp only [hd, if_true, toBitmap] at hk
    cases gaps with
    | nil => simp at hne
    | cons first rest =>
      have hrest : ∀ r ∈ rest, first.2 + 1 ≤ r.2 ∧ r.2 ≤ high (first :: rest) := by
        intro r hr
        have hlt := wf.canonical.head_lt hr
        have hle := wf.canonical.nonempty r (by simp [hr])
        exact ⟨by omega, le_high wf.canonical ⟨r, by simp [hr], hle, le_rfl⟩⟩
      obtain ⟨r, hr⟩ : ∃ r, r ∈ rest := by
        cases rest with
        | nil => simp [disjoint] at hd
        | cons r _ => exact ⟨r, by simp⟩
      have hmax := high_le wf hne
      have hr' := hrest r hr
      have hbase : next (cumulativeAck (first :: rest)) = first.2 + 1 :=
        next_of_lt (by simp only [cumulativeAck_cons]; omega)
      rw [hbase] at hk ⊢
      have := toBitmapLoop_numBits (bitmapNumLongs (first.2 + 1) (high (first :: rest)))
        (first :: rest) memory 0 hrest (by omega)
      omega

theorem marshalGaps_declares {gaps : List Range} {gap : Gap} (wf : WellFormed gaps)
    (hne : gaps ≠ []) (h : marshalGaps w gaps memory = some gap) {n : Int} (hn : gap.Declares n) :
    n ≤ high gaps := by
  have hack := low_le_cumulativeAck wf.canonical hne
  have hackHigh : cumulativeAck gaps ≤ high gaps :=
    le_high wf.canonical (covers_of_le_cumulativeAck hne hack le_rfl)
  have hlow := low_nonneg wf
  have hbase : next (cumulativeAck gaps) ≤ cumulativeAck gaps + 1 := by
    unfold next
    split <;> omega
  unfold marshalGaps at h
  split at h
  · cases h
  · cases h
    rcases hn with ⟨-, hlt⟩ | ⟨k, hk, hbit, rfl⟩
    · simp only at hlt
      omega
    · exact gapList_bound wf hne hk hbit

theorem Requested.mono {last last' : Int} {seqs : List Range} (req : Requested assigned last seqs)
    (h : last ≤ last') : Requested assigned last' seqs :=
  ⟨req.wellFormed, req.positive, fun n hn => by have := req.below n hn; omega, req.assigned⟩

theorem requestGaps_requested (hlast : last ≤ maxValue) {requests gaps : List Range}
    (req : Requested assigned last requests) (h : requestGaps w requests = .ok gaps) :
    Requested assigned last gaps := by
  unfold requestGaps at h
  split at h
  · cases h
    exact req
  · split at h
    · cases h
      exact req
    · apply resendAll_requested hlast requests [] gaps req.wellFormed.canonical.nonempty
      · intro n hn
        exact ⟨req.positive n hn, req.below n hn, req.assigned n hn⟩
      · exact requested_nil last
      · exact h

end

theorem liftFault_ok {α : Type} {x : Except Fault α} {a : α} (h : liftFault x = .ok a) :
    x = .ok a := by
  cases x with
  | error fault => cases h
  | ok b =>
    cases h
    rfl

theorem addRequests_assigned {s : State} {requests : List Range} (inv : WriterInv s)
    (hreq : RequestsAssigned s)
    (h : addRequests fuel s.writer [] (pendingChanges s.writer) = .ok requests) :
    ∃ last ≤ maxValue, Requested s.assigned last requests := by
  have hbuffered : ∀ seq ∈ s.writer.sendBuff.getD [], seq ∈ s.assigned := inv.buffered
  cases hmax : (pendingChanges s.writer).argmax fun p => requestEnd p.2 with
  | none =>
    rw [List.argmax_eq_none] at hmax
    rw [hmax] at h
    cases h
    exact ⟨maxValue, le_rfl, requested_nil maxValue⟩
  | some q =>
    have hq := List.argmax_mem hmax
    refine ⟨requestEnd q.2, hreq.ends q hq, ?_⟩
    apply addRequests_requested hbuffered (hreq.ends q hq) _ hreq.decoded _ _ [] requests
      (requested_nil _) h
    · intro p hp
      have hle := List.le_of_mem_argmax hp hmax
      exact hle
    · intro p hp
      exact hreq.near p hp q hq

theorem sendNackReplies_declares {s : State} {gap : Gap} {after : Writer} (inv : WriterInv s)
    (hreq : RequestsAssigned s) (h : sendNackReplies fuel s.writer memory = .ok (some gap, after))
    {n : Int} (hn : gap.Declares n) : Assigned s.assigned n := by
  unfold sendNackReplies at h
  split at h
  · cases h
  · rename_i requests hadd
    split at h
    · cases h
    · rename_i gaps hgaps
      split at h
      · cases h
      · rename_i all hfrags
        obtain ⟨last, hlast, req⟩ := addRequests_assigned inv hreq (liftFault_ok hadd)
        have hreqGaps := requestGaps_requested hlast req (liftFault_ok hgaps)
        have hall : Requested s.assigned (maxValue + 1) all := by
          apply nackfragGaps_requested _ _ _ _ (hreqGaps.mono (by omega)) hfrags
          intro seq hseq
          have hassigned := hreq.frags seq hseq
          obtain ⟨ri, hri, hseq⟩ := List.mem_flatMap.mp hseq
          split at hseq
          · have hbounds := inv.frags ri hri seq hseq
            exact ⟨hbounds.1, hbounds.2, by omega, hassigned⟩
          · simp at hseq
        obtain ⟨hgap, -⟩ := Prod.mk.inj (Except.ok.inj h)
        split at hgap
        · cases hgap
        · rename_i hempty
          have hne : all ≠ [] := by simpa using hempty
          have hle := marshalGaps_declares hall.wellFormed hne hgap hn
          obtain ⟨m, hm, hhigh⟩ := hall.assigned _ (covers_high hall.wellFormed.canonical hne)
          exact ⟨m, hm, by omega⟩

theorem updateReader_frags {w : Writer} {id : Nat} {f : ReaderInfo → ReaderInfo}
    (hw : ∀ ri ∈ w.remoteReaders, ∀ seq ∈ ri.requestedFrags, 1 ≤ seq ∧ seq ≤ maxValue)
    (hf : ∀ ri, ∀ seq ∈ (f ri).requestedFrags, seq ∈ ri.requestedFrags ∨ 1 ≤ seq ∧ seq ≤ maxValue) :
    ∀ ri ∈ (updateReader w id f).remoteReaders, ∀ seq ∈ ri.requestedFrags,
      1 ≤ seq ∧ seq ≤ maxValue := by
  intro ri hri seq hseq
  obtain ⟨old, hold, rfl⟩ := List.mem_map.mp hri
  split at hseq
  · rcases hf old seq hseq with h | h
    · exact hw old hold seq h
    · exact h
  · exact hw old hold seq hseq

theorem receivedAckNack_cases {w after : Writer} {ri : ReaderInfo} {acknack : AckNackSubmessage}
    (h : receivedAckNack fuel w ri acknack = .ok after) : after = w ∨ ∃ f : ReaderInfo → ReaderInfo,
      (∀ ri, (f ri).requestedFrags = ri.requestedFrags) ∧ after = updateReader w ri.id f := by
  unfold receivedAckNack at h
  split at h
  · cases h
    exact .inl rfl
  · right
    dsimp only at h
    split at h
    · cases h
      refine ⟨_, fun ri => ?_, rfl⟩
      split <;> rfl
    · split at h
      · cases h
        refine ⟨_, fun ri => ?_, rfl⟩
        split <;> rfl
      · split at h
        · cases h
        · cases h
          refine ⟨_, fun ri => ?_, rfl⟩
          split
          · rfl
          · split <;> rfl

theorem sendNackReplies_writer {w after : Writer} {gap : Option Gap}
    (h : sendNackReplies fuel w memory = .ok (gap, after)) :
    after.sendBuff = w.sendBuff ∧ ∀ ri ∈ after.remoteReaders, ∃ old ∈ w.remoteReaders,
      ∀ seq ∈ ri.requestedFrags, seq ∈ old.requestedFrags := by
  unfold sendNackReplies at h
  split at h
  · cases h
  · split at h
    · cases h
    · split at h
      · cases h
      · cases h
        refine ⟨rfl, fun ri hri => ?_⟩
        obtain ⟨old, hold, rfl⟩ := List.mem_map.mp hri
        refine ⟨old, hold, fun seq hseq => ?_⟩
        split at hseq
        · simp at hseq
        · exact hseq

theorem sendHeartbeats_writer (w : Writer) (expired : List Nat) :
    (sendHeartbeats w expired).2.sendBuff = w.sendBuff ∧
    ∀ ri ∈ (sendHeartbeats w expired).2.remoteReaders, ∃ old ∈ w.remoteReaders,
      ri.requestedFrags = old.requestedFrags := by
  have hmap : ∀ ri ∈ w.remoteReaders.map (fun ri =>
      if expired.contains ri.id then { ri with durableData := [] } else ri),
      ∃ old ∈ w.remoteReaders, ri.requestedFrags = old.requestedFrags := by
    intro ri hri
    obtain ⟨old, hold, rfl⟩ := List.mem_map.mp hri
    refine ⟨old, hold, ?_⟩
    split <;> rfl
  unfold sendHeartbeats
  dsimp only
  split <;> exact ⟨rfl, hmap⟩

theorem step_inv {capacity fuel : Nat} {s after : State} {e : Event} (inv : WriterInv s)
    (hdom : InDomain s e) (hreply : ∀ memory, e = .nackReply memory → RequestsAssigned s)
    (h : step capacity fuel s e = .ok after) : WriterInv after := by
  cases e with
  | customize seq =>
    cases h
    exact ⟨fun x hx => by simp [inv.buffered x hx], inv.frags, inv.sound⟩
  | customizeDurable reader seq =>
    cases h
    refine ⟨fun x hx => by simp [inv.buffered x hx], ?_, inv.sound⟩
    exact updateReader_frags inv.frags fun ri seq hseq => .inl hseq
  | sendPacket seq =>
    cases h
    refine ⟨fun x hx => ?_, inv.frags, inv.sound⟩
    rcases insertKey_mem hx with rfl | hx
    · exact hdom
    · split at hx
      · exact inv.buffered x (List.mem_of_mem_tail hx)
      · exact inv.buffered x hx
  | acknack acknack =>
    unfold step at h
    dsimp only at h
    split at h
    · cases h
      exact inv
    · split at h
      · cases h
      · rename_i ri _ _ w hw
        cases h
        rcases receivedAckNack_cases hw with rfl | ⟨f, hf, rfl⟩
        · exact inv
        · refine ⟨inv.buffered, ?_, inv.sound⟩
          exact updateReader_frags inv.frags fun ri seq hseq => .inl (hf ri ▸ hseq)
  | nackfrag nackfrag =>
    unfold step at h
    dsimp only at h
    split at h
    · cases h
      exact inv
    · cases h
      unfold receivedNackFrag
      split
      · exact inv
      · refine ⟨inv.buffered, ?_, inv.sound⟩
        apply updateReader_frags inv.frags
        intro ri seq hseq
        rcases insertKey_mem hseq with rfl | hseq
        · exact .inr ⟨nackfrag.writerSN.value_pos, nackfrag.writerSN.value_le⟩
        · exact .inl hseq
  | nackReply memory =>
    have hreq := hreply memory rfl
    unfold step at h
    dsimp only at h
    split at h
    · cases h
    · rename_i gap w hsend
      cases h
      obtain ⟨hbuff, hreaders⟩ := sendNackReplies_writer hsend
      refine ⟨fun x hx => inv.buffered x (hbuff ▸ hx), ?_, ?_⟩
      · intro ri hri seq hseq
        obtain ⟨old, hold, hsub⟩ := hreaders ri hri
        exact inv.frags old hold seq (hsub seq hseq)
      · intro p hp n hn
        rcases List.mem_append.mp hp with hp | hp
        · exact inv.sound p hp n hn
        · cases gap with
          | none => simp at hp
          | some gap =>
            simp only [Option.toList_some, List.map_cons, List.map_nil, List.mem_singleton] at hp
            subst hp
            exact sendNackReplies_declares inv hreq hsend hn
  | heartbeat expired =>
    cases h
    obtain ⟨hbuff, hreaders⟩ := sendHeartbeats_writer s.writer expired
    refine ⟨fun x hx => inv.buffered x (hbuff ▸ hx), ?_, inv.sound⟩
    intro ri hri seq hseq
    obtain ⟨old, hold, heq⟩ := hreaders ri hri
    exact inv.frags old hold seq (heq ▸ hseq)

/-- In a run whose replies answer requests for customized numbers, every number a GAP
declares irrelevant is at most one that was customized before the GAP was sent. -/
theorem gaps_declare_assigned (capacity : Nat) (readers : List (Nat × Bool × Bool))
    (durable : Bool) {events : List Event} {s : State}
    (h : Run (State.initial readers durable) (SoundSteps capacity) events s) :
    ∀ p ∈ s.gaps, ∀ n, p.1.Declares n → Assigned p.2 n := by
  have inv : WriterInv s := by
    apply h.invariant WriterInv (initial_inv readers durable)
    intro s e after inv hstep
    obtain ⟨⟨hdom, fuel, hok⟩, hsound⟩ := hstep
    apply step_inv inv hdom _ hok
    intro memory he
    subst he
    exact hsound
  exact inv.sound

theorem two_le_bits : 2 ≤ 256 := by decide

/-- A request for the first two numbers. -/
private def firstTwoRequested : AckNackSubmessage :=
  { readerId := 1
    final := false
    readerSNState := { bitmapBase := ⟨0, 1⟩, numBits := 2, bitmap := fun _ => 0xC0000000#32,
                       numBits_le := two_le_bits }
    count := 1 }

/-- One reader at a writer with these requests pending and this send buffer. -/
private def oneReader (requests : List SequenceNumberSet) (sendBuff : Option (List Int))
    (expected : Int) (assigned : List Int) : State :=
  { writer := { remoteReaders := [{ ReaderInfo.associated 1 false true with
                  acknackRecvdCount := requests.length
                  handshakeDone := !requests.isEmpty
                  requestedChanges := requests }]
                sendBuff := sendBuff
                expected := expected
                heartbeatCount := 0
                durable := false }
    assigned := assigned
    gaps := [] }

private def bothPending : State :=
  oneReader [firstTwoRequested.readerSNState] (some [2]) 3 [1, 2]

private theorem bothPending_assigned : RequestsAssigned bothPending := by
  have hpending : ∀ p ∈ pendingChanges bothPending.writer,
      p.2 = firstTwoRequested.readerSNState := by
    intro p hp
    simp only [pendingChanges, bothPending, oneReader, List.flatMap_cons, List.flatMap_nil,
      List.map_cons, List.map_nil, List.append_nil, List.mem_singleton] at hp
    rw [hp]
  constructor
  · intro p hp _ k hk
    rw [hpending p hp] at hk ⊢
    have hbound : k < 2 := hk.bound
    have hbase : firstTwoRequested.readerSNState.bitmapBase.value = 1 := by decide
    exact ⟨2, by simp [bothPending, oneReader], by omega⟩
  · intro seq hseq
    simp [pendingFrags, bothPending, oneReader, ReaderInfo.associated] at hseq
  · intro p hp
    rw [hpending p hp]
    decide
  · intro p hp q hq
    rw [hpending p hp, hpending q hq]
    decide

/-- Two samples with room for one in the send buffer: the reply to a request for both
declares the first. -/
theorem gaps_declare_assigned_aged :
    ∃ s, Run (State.initial [(1, false, true)] false) (SoundSteps 1)
        [.customize 1, .sendPacket 1, .customize 2, .sendPacket 2, .acknack firstTwoRequested,
          .nackReply fun _ => 0] s ∧
      (∃ p ∈ s.gaps, p.1.Declares 1) ∧
      ∀ p ∈ s.gaps, ∀ n, p.1.Declares n → Assigned p.2 n := by
  have h₁ : SoundSteps 1 (State.initial [(1, false, true)] false) (.customize 1)
      (oneReader [] none 2 [1]) :=
    ⟨⟨⟨by decide, by simp [State.initial]⟩, 0, rfl⟩, trivial⟩
  have h₂ : SoundSteps 1 (oneReader [] none 2 [1]) (.sendPacket 1)
      (oneReader [] (some [1]) 2 [1]) :=
    ⟨⟨by simp [InDomain, oneReader], 0, rfl⟩, trivial⟩
  have h₃ : SoundSteps 1 (oneReader [] (some [1]) 2 [1]) (.customize 2)
      (oneReader [] (some [1]) 3 [1, 2]) :=
    ⟨⟨⟨by decide, by simp [oneReader]⟩, 0, rfl⟩, trivial⟩
  have h₄ : SoundSteps 1 (oneReader [] (some [1]) 3 [1, 2]) (.sendPacket 2)
      (oneReader [] (some [2]) 3 [1, 2]) :=
    ⟨⟨by simp [InDomain, oneReader], 0, rfl⟩, trivial⟩
  have h₅ : SoundSteps 1 (oneReader [] (some [2]) 3 [1, 2]) (.acknack firstTwoRequested)
      bothPending := ⟨⟨trivial, 0, rfl⟩, trivial⟩
  obtain ⟨after, h₆, gap, hgaps, hstart, hbase⟩ : ∃ after,
      SoundSteps 1 bothPending (.nackReply fun _ => 0) after ∧
      ∃ gap, after.gaps = [(gap, [1, 2])] ∧ gap.gapStart = 1 ∧ gap.gapListBase = 2 :=
    ⟨_, ⟨⟨trivial, 8, rfl⟩, bothPending_assigned⟩, _, rfl, rfl, rfl⟩
  have run := (((((Run.start.next h₁).next h₂).next h₃).next h₄).next h₅).next h₆
  refine ⟨after, run, ⟨(gap, [1, 2]), by rw [hgaps]; simp, .inl ?_⟩, ?_⟩
  · simp only [hstart, hbase]
    omega
  · exact gaps_declare_assigned 1 [(1, false, true)] false run

/-- Nothing has been customized, and a request for the first two numbers is answered by
a GAP that declares them irrelevant. -/
theorem gaps_declare_unassigned :
    ¬ ∀ (events : List Event) (s : State),
      Run (State.initial [(1, false, true)] false) (Steps 1) events s →
      ∀ p ∈ s.gaps, ∀ n, p.1.Declares n → Assigned p.2 n := by
  intro claim
  have h₁ : Steps 1 (State.initial [(1, false, true)] false) (.acknack firstTwoRequested)
      (oneReader [firstTwoRequested.readerSNState] none 1 []) := ⟨trivial, 0, rfl⟩
  obtain ⟨after, h₂, gap, hgaps, hstart, hbase⟩ : ∃ after,
      Steps 1 (oneReader [firstTwoRequested.readerSNState] none 1 []) (.nackReply fun _ => 0)
        after ∧
      ∃ gap, after.gaps = [(gap, [])] ∧ gap.gapStart = 1 ∧ gap.gapListBase = 3 :=
    ⟨_, ⟨trivial, 8, rfl⟩, _, rfl, rfl, rfl⟩
  have declared : gap.Declares 1 := Or.inl ⟨by omega, by omega⟩
  obtain ⟨m, hm, -⟩ := claim _ _ ((Run.start.next h₁).next h₂) (gap, []) (by rw [hgaps]; simp) 1
    declared
  simp at hm

end OpenDDS.Guarantees.GapSoundness
