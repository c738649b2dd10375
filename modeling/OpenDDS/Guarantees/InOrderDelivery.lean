import OpenDDS.Source.RtpsReader

/-!
# In-order delivery to a reliable RTPS reader

`RtpsUdpReceiveStrategy::deliver_sample` withholds a sample "in order to maintain
in-order delivery". A durable reader is only handed samples once everything from
number one on is accounted for. A reader that is not durable takes the first number
it sees as its baseline, and three submessages can move that baseline down later and
leave a hole above it that a delivered sample has already passed:

* DATA with a number below `recvd_.low()`: it starts a range of its own, becomes the
  cumulative ack and is delivered after the higher sample;
* GAP that ends below `recvd_.low()`, and the first HEARTBEAT when its lastSN is below
  `recvd_.low()`: the numbers in the hole are delivered when they arrive.
-/
namespace OpenDDS.Guarantees.InOrderDelivery
open Library Library.RangeList Source Source.SequenceNumber Source.DisjointSequence
open Source.RtpsMessages Source.RtpsReader

variable {α : Type}

/-- The submessage does not extend `recvd_` below its lowest number with a hole in
between. Durable readers need no such condition. -/
def KeepsBaseline (durable : Bool) (info : WriterInfo α) : Event α → Prop
  | .data writerSN _ => durable = false → info.recvd ≠ [] → low info.recvd ≤ writerSN.value
  | .gap gap => GapFits info.recvd gap ∧
      (durable = false → info.recvd ≠ [] → low info.recvd ≤ gap.gapList.bitmapBase.value)
  | .heartbeat hb _ => durable = false → info.initialHb = true →
      info.heartbeatRecvdCount < hb.count → info.recvd ≠ [] → low info.recvd ≤ hb.lastSN.value
  | .hbFrag _ => True
  | .reply _ _ => True

def OrderedSteps (durable : Bool) (s : State α) (e : Event α) (after : State α) : Prop :=
  Steps durable s e after ∧ KeepsBaseline durable s.info e

def Increasing (delivered : List (Int × α)) : Prop := delivered.Pairwise fun a b => a.1 < b.1

instance (delivered : List (Int × α)) : Decidable (Increasing delivered) :=
  inferInstanceAs (Decidable (delivered.Pairwise fun a b => a.1 < b.1))

/-- The received numbers, the held samples and the samples delivered so far fit together. -/
structure InOrder (durable : Bool) (info : WriterInfo α) (delivered : List (Int × α)) : Prop where
  recvd : WellFormed info.recvd
  heldSorted : Increasing info.held
  heldRecvd : ∀ x ∈ info.held, Covers info.recvd x.1
  sorted : Increasing delivered
  deliveredRecvd : ∀ d ∈ delivered, Covers info.recvd d.1
  heldAbove : ∀ d ∈ delivered, ∀ x ∈ info.held, d.1 < x.1
  filled : ∀ d ∈ delivered, ∀ n, 1 ≤ n → low info.recvd ≤ n → n ≤ d.1 → Covers info.recvd n
  fromOne : durable = true → delivered ≠ [] → low info.recvd ≤ 1
  baseline : durable = false → info.initialHb = false → info.recvd ≠ [] ∧ low info.recvd ≤ 0

theorem initial_inOrder (durable : Bool) :
    InOrder durable (WriterInfo.default : WriterInfo α) [] where
  recvd := wellFormed_nil
  heldSorted := List.Pairwise.nil
  heldRecvd := by simp [WriterInfo.default]
  sorted := List.Pairwise.nil
  deliveredRecvd := by simp
  heldAbove := by simp
  filled := by simp
  fromOne := by simp
  baseline := by simp [WriterInfo.default]

variable {seq : Int} {after : WriterInfo α} {out : List (Int × α)} {sample : α}

section

variable {durable : Bool} {info : WriterInfo α} {delivered : List (Int × α)}

theorem InOrder.delivered_lt (inv : InOrder durable info delivered) (hpos : 1 ≤ seq)
    (hnew : ¬ Covers info.recvd seq)
    (hbase : durable = false → info.recvd ≠ [] → low info.recvd ≤ seq) :
    ∀ d ∈ delivered, d.1 < seq := by
  intro d hd
  by_contra hle
  have hne : info.recvd ≠ [] := ne_nil_of_covers (inv.deliveredRecvd d hd)
  have hlow : low info.recvd ≤ seq := by
    cases hdur : durable with
    | false => exact hbase hdur hne
    | true => exact (inv.fromOne hdur (List.ne_nil_of_mem hd)).trans hpos
  exact hnew (inv.filled d hd seq hpos hlow (by omega))

theorem InOrder.grow (inv : InOrder durable info delivered) (after : WriterInfo α)
    (hwf : WellFormed after.recvd) (hheld : after.held = info.held)
    (hsub : ∀ n, Covers info.recvd n → Covers after.recvd n)
    (hfill : durable = false → info.recvd ≠ [] → ∀ n, 1 ≤ n → low after.recvd ≤ n →
      n < low info.recvd → Covers after.recvd n)
    (hhb : durable = false → after.initialHb = false → info.initialHb = true →
      after.recvd ≠ [] ∧ low after.recvd ≤ 0) : InOrder durable after delivered where
  recvd := hwf
  heldSorted := hheld ▸ inv.heldSorted
  heldRecvd := fun x hx => hsub _ (inv.heldRecvd x (hheld ▸ hx))
  sorted := inv.sorted
  deliveredRecvd := fun d hd => hsub _ (inv.deliveredRecvd d hd)
  heldAbove := fun d hd x hx => inv.heldAbove d hd x (hheld ▸ hx)
  filled := by
    intro d hd n hpos hlow hle
    have hne : info.recvd ≠ [] := ne_nil_of_covers (inv.deliveredRecvd d hd)
    by_cases hold : low info.recvd ≤ n
    · exact hsub n (inv.filled d hd n hpos hold hle)
    · cases hdur : durable with
      | false => exact hfill hdur hne n hpos hlow (by omega)
      | true =>
        have := inv.fromOne hdur (List.ne_nil_of_mem hd)
        omega
  fromOne := by
    intro hdur hd
    obtain ⟨d, hmem⟩ := List.exists_mem_of_ne_nil _ hd
    have hne : info.recvd ≠ [] := ne_nil_of_covers (inv.deliveredRecvd d hmem)
    exact (low_mono inv.recvd.canonical hwf.canonical hne hsub).trans (inv.fromOne hdur hd)
  baseline := by
    intro hdur hinit
    cases hold : info.initialHb with
    | true => exact hhb hdur hinit hold
    | false =>
      obtain ⟨hne, hlow⟩ := inv.baseline hdur hold
      exact ⟨ne_nil_of_covers (hsub _ (covers_low inv.recvd.canonical hne)),
        (low_mono inv.recvd.canonical hwf.canonical hne hsub).trans hlow⟩

theorem InOrder.deliver (inv : InOrder durable info delivered) :
    InOrder durable (deliverHeldData info durable).2
      (delivered ++ (deliverHeldData info durable).1) := by
  obtain ⟨hinfo, hsplit, hguard, hack⟩ := deliverHeldData_effects info durable
  generalize deliverHeldData info durable = delivery at *
  obtain ⟨out, after⟩ := delivery
  have hout : ∀ x ∈ out, x ∈ info.held := fun x hx => by rw [hsplit]; simp [hx]
  have hrest : ∀ x ∈ after.held, x ∈ info.held := fun x hx => by rw [hsplit]; simp [hx]
  have hsorted := inv.heldSorted
  rw [hsplit] at hsorted
  obtain ⟨hs₁, hs₂, hcross⟩ := List.pairwise_append.mp hsorted
  rw [hinfo]
  refine ⟨inv.recvd, hs₂, fun x hx => inv.heldRecvd x (hrest x hx), ?_, ?_, ?_, ?_, ?_,
    inv.baseline⟩
  · exact List.pairwise_append.mpr ⟨inv.sorted, hs₁, fun d hd x hx => inv.heldAbove d hd x (hout x hx)⟩
  · intro d hd
    rcases List.mem_append.mp hd with hd | hd
    · exact inv.deliveredRecvd d hd
    · exact inv.heldRecvd d (hout d hd)
  · intro d hd x hx
    rcases List.mem_append.mp hd with hd | hd
    · exact inv.heldAbove d hd x (hrest x hx)
    · exact hcross d hd x hx
  · intro d hd n hpos hlow hle
    rcases List.mem_append.mp hd with hd | hd
    · exact inv.filled d hd n hpos hlow hle
    · exact covers_of_le_cumulativeAck (ne_nil_of_covers (inv.heldRecvd d (hout d hd))) hlow
        (hle.trans (hack d hd))
  · intro hdur hne
    by_cases hd : delivered = []
    · exact (hguard (by simpa [hd] using hne) hdur).2
    · exact inv.fromOne hdur hd

theorem holdSample_mem {held : List (Int × α)} {x : Int × α} (h : x ∈ holdSample seq sample held) :
    x = (seq, sample) ∨ x ∈ held := by
  induction held with
  | nil => simpa [holdSample] using h
  | cons y ys ih =>
    unfold holdSample at h
    split at h
    · rcases List.mem_cons.mp h with rfl | h
      · exact .inr (by simp)
      · rcases ih h with h | h
        · exact .inl h
        · exact .inr (by simp [h])
    · split at h
      · exact .inr h
      · simpa using h

theorem holdSample_increasing {held : List (Int × α)} (h : Increasing held) :
    Increasing (holdSample seq sample held) := by
  induction held with
  | nil => simp [holdSample, Increasing]
  | cons y ys ih =>
    obtain ⟨hy, hys⟩ := List.pairwise_cons.mp h
    unfold holdSample
    split
    · rename_i hlt
      refine List.pairwise_cons.mpr ⟨fun x hx => ?_, ih hys⟩
      rcases holdSample_mem hx with rfl | hx
      · exact hlt
      · exact hy x hx
    · split
      · exact h
      · refine List.pairwise_cons.mpr ⟨fun x hx => ?_, h⟩
        rcases List.mem_cons.mp hx with rfl | hx
        · omega
        · have := hy x hx
          omega

theorem InOrder.hold (inv : InOrder durable info delivered) (sample : α)
    (hrecvd : Covers info.recvd seq) (habove : ∀ d ∈ delivered, d.1 < seq) :
    InOrder durable { info with held := holdSample seq sample info.held } delivered :=
  { inv with
    heldSorted := holdSample_increasing inv.heldSorted
    heldRecvd := fun x hx => by
      rcases holdSample_mem hx with rfl | hx
      · exact hrecvd
      · exact inv.heldRecvd x hx
    heldAbove := fun d hd x hx => by
      rcases holdSample_mem hx with rfl | hx
      · exact habove d hd
      · exact inv.heldAbove d hd x hx }

theorem InOrder.direct (inv : InOrder durable info delivered) (hrecvd : Covers info.recvd seq)
    (habove : ∀ d ∈ delivered, d.1 < seq) (hheld : info.held = [])
    (hfill : ∀ n, low info.recvd ≤ n → n ≤ seq → Covers info.recvd n)
    (hone : durable = true → low info.recvd ≤ 1) :
    InOrder durable info (delivered ++ [(seq, sample)]) where
  recvd := inv.recvd
  heldSorted := inv.heldSorted
  heldRecvd := inv.heldRecvd
  sorted := by
    refine List.pairwise_append.mpr ⟨inv.sorted, by simp, fun d hd x hx => ?_⟩
    obtain rfl : x = (seq, sample) := by simpa using hx
    exact habove d hd
  deliveredRecvd := by
    intro d hd
    rcases List.mem_append.mp hd with hd | hd
    · exact inv.deliveredRecvd d hd
    · obtain rfl : d = (seq, sample) := by simpa using hd
      exact hrecvd
  heldAbove := by simp [hheld]
  filled := by
    intro d hd n hpos hlow hle
    rcases List.mem_append.mp hd with hd | hd
    · exact inv.filled d hd n hpos hlow hle
    · obtain rfl : d = (seq, sample) := by simpa using hd
      exact hfill n hlow hle
  fromOne := fun hdur _ => hone hdur
  baseline := inv.baseline

section

variable (hpos : 1 ≤ seq) (hnew : ¬ Covers info.recvd seq)
  (hbase : durable = false → info.recvd ≠ [] → low info.recvd ≤ seq)
  (h : mustHold info durable seq = false)
include hpos hnew hbase h

/-- What the tests of `process_data_i` leave for a sample that is handed over at once:
it is the first one, or the successor of the only range. -/
theorem immediate_cases : (info.recvd = [] ∧ (durable = true → seq = 1)) ∨
    (info.recvd = [(low info.recvd, seq - 1)] ∧ (durable = true → low info.recvd ≤ 1)) := by
  simp only [mustHold, Bool.or_eq_false_iff, Bool.and_eq_false_iff, bne_eq_false_iff_eq,
    decide_eq_false_iff_not, Bool.not_eq_false', empty] at h
  obtain ⟨⟨⟨hsingle, hack⟩, hlow⟩, hempty⟩ := h
  by_cases hne : info.recvd = []
  · left
    refine ⟨hne, fun hdur => ?_⟩
    simp only [hdur, hne, List.isEmpty_nil, Bool.true_eq_false, or_false, false_or] at hempty
    omega
  · right
    have hnil : info.recvd.isEmpty = false := by simpa using hne
    simp only [hnil, Bool.false_eq_true, false_or] at hack hlow
    have hone : durable = true → low info.recvd ≤ 1 := by
      intro hdur
      simp only [hdur, Bool.true_eq_false, or_false, false_or] at hlow
      omega
    have hlowSeq : low info.recvd ≤ seq := by
      cases hdur : durable with
      | false => exact hbase hdur hne
      | true => exact (hone hdur).trans hpos
    have hseq : seq ≠ 1 := by
      -- the number before one is the largest value, so one would be inside the range
      rintro rfl
      have hcov := covers_of_le_cumulativeAck (n := 1) hne hlowSeq
      rw [hack] at hcov
      exact hnew (hcov (by decide))
    rw [previous_of_ne hseq] at hack
    exact ⟨hack ▸ eq_singleton_of_not_disjoint hne hsingle, hone⟩

theorem immediate_run :
    (∀ n, Covers info.recvd n → n < seq ∧ ∀ m, n ≤ m → m < seq → Covers info.recvd m) ∧
    (durable = true → seq = 1 ∨ Covers info.recvd 1) := by
  rcases immediate_cases hpos hnew hbase h with ⟨hnil, hone⟩ | ⟨hrun, hone⟩
  · rw [hnil]
    exact ⟨by simp, fun hdur => .inl (hone hdur)⟩
  · generalize low info.recvd = first at hrun hone
    rw [hrun]
    simp only [covers_cons, covers_nil, or_false]
    refine ⟨fun n hn => ⟨by omega, fun m h₁ h₂ => ⟨by omega, by omega⟩⟩, fun hdur => ?_⟩
    have := hone hdur
    omega

end

theorem InOrder.data (inv : InOrder durable info delivered) {withheld : Bool} (hpos : 1 ≤ seq)
    (hmax : seq ≤ maxValue) (hbase : durable = false → info.recvd ≠ [] → low info.recvd ≤ seq)
    (h : processDataI durable info seq sample = .ok (withheld, out, after)) : InOrder durable after
      (delivered ++ out ++ if withheld then [] else [(seq, sample)]) := by
  obtain ⟨recvd, frags, updated, hwf, hcov, hwithheld, hupdated, rfl, rfl⟩ :=
    processDataI_effects inv.recvd hpos hmax h
  have hseq : Covers recvd seq := (hcov seq).mpr (.inr rfl)
  have hlow : durable = false → info.recvd ≠ [] → low info.recvd ≤ low recvd := by
    intro hdur hne
    rcases (hcov _).mp (covers_low hwf.canonical (ne_nil_of_covers hseq)) with h | h
    · exact low_le inv.recvd.canonical h
    · exact h ▸ hbase hdur hne
  have hgrown : InOrder durable { info with recvd := recvd, frags := frags } delivered :=
    inv.grow _ hwf rfl (fun n hn => (hcov n).mpr (.inl hn))
      (fun hdur hne n _ h₁ h₂ => by have := hlow hdur hne; simp only at h₁; omega)
      (fun _ h₁ h₂ => by simp [h₂] at h₁)
  cases hpresent : contains info.recvd seq with
  | true =>
    simp only [hpresent, Bool.true_or, Bool.not_true, Bool.false_and, Bool.false_eq_true,
      if_false] at hwithheld hupdated
    subst hwithheld hupdated
    simpa using hgrown.deliver
  | false =>
    have hnew : ¬ Covers info.recvd seq := by
      rw [← contains_iff inv.recvd.canonical, hpresent]
      simp
    have habove := inv.delivered_lt hpos hnew hbase
    cases hhold : mustHold info durable seq with
    | true =>
      simp only [hpresent, hhold, Bool.or_true, Bool.not_false, Bool.and_true, if_true]
        at hwithheld hupdated
      subst hwithheld hupdated
      simpa using (hgrown.hold sample hseq habove).deliver
    | false =>
      simp only [hpresent, hhold, Bool.or_false, Bool.and_false, Bool.false_eq_true, if_false]
        at hwithheld hupdated
      subst hwithheld hupdated
      obtain ⟨hrun, hfrom⟩ := immediate_run hpos hnew hbase hhold
      have hlowMem := covers_low hwf.canonical (ne_nil_of_covers hseq)
      have hfill : ∀ n, low recvd ≤ n → n ≤ seq → Covers recvd n := by
        intro n h₁ h₂
        rcases (hcov _).mp hlowMem with hmem | hmem
        · by_cases hn : n = seq
          · exact hn ▸ hseq
          · exact (hcov n).mpr (.inl ((hrun _ hmem).2 n h₁ (by omega)))
        · rw [show n = seq by omega]
          exact hseq
      have hone : durable = true → low recvd ≤ 1 := by
        intro hdur
        rcases hfrom hdur with rfl | hlow₁
        · exact low_le hwf.canonical hseq
        · exact low_le hwf.canonical ((hcov 1).mpr (.inl hlow₁))
      have hheld : ∀ x ∈ info.held, x.1 ≤ cumulativeAck recvd := by
        intro x hx
        have h₁ := (hrun _ (inv.heldRecvd x hx)).1
        have h₂ := le_cumulativeAck hwf.canonical (ne_nil_of_covers hseq) hfill
        omega
      have hempty := deliverHeldData_all
        { info with recvd := recvd, frags := frags } durable
        (fun hdur => ⟨ne_nil_of_covers hseq, hone hdur⟩) hheld
      obtain ⟨hinfo, hsplit, -, -⟩ :=
        deliverHeldData_effects { info with recvd := recvd, frags := frags } durable
      have hrecvd := congrArg WriterInfo.recvd hinfo
      refine hgrown.deliver.direct (by rwa [hrecvd]) (fun d hd => ?_) hempty (by rwa [hrecvd])
        (by rwa [hrecvd])
      rcases List.mem_append.mp hd with hd | hd
      · exact habove d hd
      · exact (hrun _ (inv.heldRecvd d (by rw [hsplit]; simp [hd]))).1

theorem InOrder.gap (inv : InOrder durable info delivered) {fuel : Nat} {gap : GapSubmessage}
    (fits : GapFits info.recvd gap)
    (hbase : durable = false → info.recvd ≠ [] → low info.recvd ≤ gap.gapList.bitmapBase.value)
    (h : processGapI fuel durable info gap = .ok (out, after)) :
    InOrder durable after (delivered ++ out) := by
  obtain ⟨recvd, hwf, hkeeps, hrange, hadds, rfl, rfl⟩ := processGapI_effects inv.recvd fits h
  refine (inv.grow { info with recvd := recvd } hwf rfl hkeeps ?_ ?_).deliver
  · intro hdur hne n hpos hlow hlt
    have hb := hbase hdur hne
    have hmem := covers_low hwf.canonical
      (ne_nil_of_covers (hkeeps _ (covers_low inv.recvd.canonical hne)))
    simp only at hlow
    -- the new lowest number comes from the announced range, which reaches up to the old one
    rcases hadds _ hmem with h | h | ⟨k, h, -⟩
    · have := low_le inv.recvd.canonical h
      omega
    · exact hrange n (by omega) (by omega)
    · omega
  · intro _ h₁ h₂
    simp [h₂] at h₁

theorem heartbeatRange_first {first last n : Int} (hdur : durable = false)
    (hinit : info.initialHb = true) (hne : info.recvd ≠ []) (hlast : low info.recvd ≤ last)
    (hpos : 1 ≤ n) (hlt : n < low info.recvd) :
    ∃ r ∈ heartbeatRange durable info first last, 0 ≤ n ∧ n ≤ r.2 := by
  have hempty : empty info.recvd = false := by simpa [empty] using hne
  simp only [heartbeatRange, hdur, hinit, hempty, Bool.not_false, Bool.and_true, if_true,
    Bool.false_eq_true, false_or]
  split
  · refine ⟨_, rfl, by omega, ?_⟩
    simp only [minValue, show last > 1 by omega, if_true]
    rw [previous_of_ne (by omega)]
    omega
  · exact ⟨_, rfl, by omega, by simp only; omega⟩

theorem heartbeatRange_some (first last : Int) (hdur : durable = false)
    (hinit : info.initialHb = true) : ∃ r, r ∈ heartbeatRange durable info first last := by
  simp only [heartbeatRange, hdur, hinit, Bool.not_false, Bool.and_true, if_true]
  split <;> exact ⟨_, rfl⟩

theorem InOrder.heartbeat (inv : InOrder durable info delivered) {hb : HeartBeatSubmessage}
    {fragKeys : List Int} {timer : Bool}
    (hbase : durable = false → info.initialHb = true → info.heartbeatRecvdCount < hb.count →
      info.recvd ≠ [] → low info.recvd ≤ hb.lastSN.value)
    (h : processHeartbeatI durable info hb fragKeys = .ok (out, after, timer)) :
    InOrder durable after (delivered ++ out) := by
  rcases processHeartbeatI_effects h with ⟨-, rfl, rfl⟩ |
    ⟨hcount, recvd, updated, ackPending, hins, hupdated, rfl, rfl⟩
  · simpa using inv
  obtain ⟨hwf, hcov⟩ := insertOption_effects inv.recvd
    (heartbeatRange_bounds inv.recvd hb.firstSN.value_le hb.lastSN.value_le) hins
  have hrecvd : updated.recvd = recvd := by rw [hupdated]
  refine (inv.grow updated (hrecvd ▸ hwf) (by rw [hupdated])
    (fun n hn => hrecvd ▸ (hcov n).mpr (.inl hn)) ?_ ?_).deliver <;> rw [hrecvd]
  · intro hdur hne n hpos hlow hlt
    cases hinit : info.initialHb with
    | false =>
      have := (inv.baseline hdur hinit).2
      omega
    | true =>
      have hb' := hbase hdur hinit hcount hne
      exact (hcov n).mpr (.inr (heartbeatRange_first hdur hinit hne hb' hpos hlt))
  · intro hdur _ hinit
    obtain ⟨r, hr⟩ := heartbeatRange_some hb.firstSN.value hb.lastSN.value hdur hinit
    have hr' := heartbeatRange_bounds inv.recvd hb.firstSN.value_le hb.lastSN.value_le r hr
    have hzero : Covers recvd 0 := (hcov 0).mpr (.inr ⟨r, hr, le_rfl, hr'.2.1⟩)
    exact ⟨ne_nil_of_covers hzero, low_le hwf.canonical hzero⟩

theorem InOrder.reply (inv : InOrder durable info delivered) {fragKeys : List Int} {memory : Bitmap}
    {acknack : Option AckNackSubmessage}
    (h : sendHeartbeatReplies durable info fragKeys memory = .ok (acknack, after)) :
    InOrder durable after delivered := by
  rcases sendHeartbeatReplies_effects h with ⟨-, rfl⟩ | ⟨recvd, start, sent, hstart, -, -, -, rfl⟩
  · exact inv
  have hgrow : ∀ recvd', WellFormed recvd' → (∀ n, Covers info.recvd n → Covers recvd' n) →
      (∀ n, 1 ≤ n → n < low info.recvd → Covers recvd' n ∨ n < low recvd') →
      InOrder durable { info with recvd := recvd', ackPending := false,
                                  acknackCount := info.acknackCount + 1 } delivered := by
    intro recvd' hwf hsub hfill
    refine inv.grow _ hwf rfl hsub (fun _ _ n hpos hlow hlt => ?_) (fun _ h₁ h₂ => by simp [h₂] at h₁)
    rcases hfill n hpos hlt with h | h
    · exact h
    · simp only at hlow
      omega
  rcases nackStart_effects inv.recvd hstart with ⟨rfl, -⟩ | ⟨-, -, -, rfl | ⟨hwf, hcov⟩⟩
  · exact hgrow _ inv.recvd (fun _ h => h) (fun n _ h => .inr h)
  · exact hgrow _ inv.recvd (fun _ h => h) (fun n _ h => .inr h)
  · exact hgrow _ hwf (fun n h => (hcov n).mpr (.inl h))
      (fun n h₁ h₂ => .inl ((hcov n).mpr (.inr ⟨by omega, by omega⟩)))

theorem InOrder.hbFrag (inv : InOrder durable info delivered) (hbFrag : HeartBeatFragSubmessage) :
    InOrder durable (processHbFragI info hbFrag).1 delivered := by
  unfold processHbFragI
  split
  · exact inv
  · simp only
    split <;> exact { inv with }

end

theorem orderedSteps_inOrder (durable : Bool) (s : State α) (e : Event α) (after : State α)
    (inv : InOrder durable s.info s.delivered) (h : OrderedSteps durable s e after) :
    InOrder durable after.info after.delivered := by
  obtain ⟨⟨fuel, hstep⟩, hkeeps⟩ := h
  rcases step_cases hstep with ⟨writerSN, sample, withheld, out, info, rfl, hres, rfl⟩ |
    ⟨gap, out, info, rfl, hres, rfl⟩ | ⟨hb, fragKeys, out, info, timer, rfl, hres, rfl⟩ |
    ⟨hbFrag, rfl, rfl⟩ | ⟨fragKeys, memory, acknack, info, rfl, hres, rfl⟩
  · exact inv.data writerSN.value_pos writerSN.value_le hkeeps hres
  · exact inv.gap hkeeps.1 hkeeps.2 hres
  · exact inv.heartbeat hkeeps hres
  · exact inv.hbFrag hbFrag
  · exact inv.reply hres

/-- In a run whose submessages keep the baseline, the sequence numbers handed to the
reader are strictly increasing. -/
theorem delivered_increasing {durable : Bool} {events : List (Event α)} {s : State α}
    (run : Run State.initial (OrderedSteps durable) events s) :
    Increasing s.delivered := by
  have inv : InOrder durable s.info s.delivered :=
    run.invariant (fun s => InOrder durable s.info s.delivered)
      (initial_inOrder durable)
      (fun s e after inv h => orderedSteps_inOrder durable s e after inv h)
  exact inv.sorted

/-- A reader before its first heartbeat. -/
private def beforeHeartbeat (recvd : List Range) (held delivered : List (Int × Unit)) :
    State Unit :=
  { info := { (WriterInfo.default : WriterInfo Unit) with recvd := recvd, held := held }
    delivered := delivered
    acknacks := [] }

/-- Number two arrives last and releases number three, which was held. -/
theorem delivered_increasing_reordered :
    ∃ s : State Unit,
      Run State.initial (OrderedSteps false) [.data ⟨0, 1⟩ (), .data ⟨0, 3⟩ (), .data ⟨0, 2⟩ ()] s ∧
      s.delivered = [(1, ()), (2, ()), (3, ())] ∧ Increasing s.delivered := by
  have h₁ : OrderedSteps false State.initial (.data ⟨0, 1⟩ ())
      (beforeHeartbeat [(1, 1)] [] [(1, ())]) := ⟨⟨0, rfl⟩, fun _ h => absurd rfl h⟩
  have h₂ : OrderedSteps false (beforeHeartbeat [(1, 1)] [] [(1, ())]) (.data ⟨0, 3⟩ ())
      (beforeHeartbeat [(1, 1), (3, 3)] [(3, ())] [(1, ())]) := ⟨⟨0, rfl⟩, fun _ _ => by decide⟩
  have h₃ : OrderedSteps false (beforeHeartbeat [(1, 1), (3, 3)] [(3, ())] [(1, ())])
      (.data ⟨0, 2⟩ ()) (beforeHeartbeat [(1, 3)] [] [(1, ()), (2, ()), (3, ())]) :=
    ⟨⟨0, rfl⟩, fun _ _ => by decide⟩
  have run := (((Run.start).next h₁).next h₂).next h₃
  exact ⟨_, run, rfl, delivered_increasing run⟩

/-- Number three arrives after number five was handed over, and is handed over too. -/
theorem delivered_not_increasing :
    ¬ ∀ (durable : Bool) (events : List (Event Unit)) (s : State Unit),
      Run State.initial (Steps durable) events s → Increasing s.delivered := by
  intro claim
  have h₁ : Steps false State.initial (.data ⟨0, 5⟩ ())
      (beforeHeartbeat [(5, 5)] [] [(5, ())]) := ⟨0, rfl⟩
  have h₂ : Steps false (beforeHeartbeat [(5, 5)] [] [(5, ())]) (.data ⟨0, 3⟩ ())
      (beforeHeartbeat [(3, 3), (5, 5)] [] [(5, ()), (3, ())]) := ⟨0, rfl⟩
  have bad := claim false _ _ (((Run.start).next h₁).next h₂)
  exact absurd bad (by decide)

end OpenDDS.Guarantees.InOrderDelivery
