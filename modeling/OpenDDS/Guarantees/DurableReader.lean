import OpenDDS.Source.RtpsReader

/-!
# What a durable RTPS reader gives up

A durable reader acknowledges cumulatively, so a number that enters `recvd_` or lies
below the base of an ACKNACK is never requested again. It should enter only because
its DATA arrived, a GAP covered it, or a HEARTBEAT said that the writer no longer has
it.

`send_heartbeat_replies` breaks this when it has to nack: the branch for numbers
between the heartbeat's first and the lowest one received is guarded by `!nack`, so a
reader that also misses later numbers falls through to "make sure that a lower
discontinuity is not possible later" and marks everything below `recvd_.low()` as
received. A GAP whose bitmap has a zero word right behind a set bit marks that word
too.
-/
namespace OpenDDS.Guarantees.DurableReader
open Library Library.RangeList Source Source.SequenceNumber Source.DisjointSequence
open Source.RtpsMessages Source.RtpsReader

variable {α : Type}

/-- The numbers a GAP submessage declares irrelevant. -/
def Skipped (gap : GapSubmessage) (n : Int) : Prop :=
  (gap.gapStart.value ≤ n ∧ n < gap.gapList.bitmapBase.value) ∨
  ∃ k : Nat, k < gap.gapList.numBits ∧ bitSet gap.gapList.bitmap k = true ∧
    n = gap.gapList.bitmapBase.value + k

/-- Number `n` arrived, was skipped by the writer, or is no longer available there. -/
def Accounted (events : List (Event α)) (n : Int) : Prop :=
  (∃ writerSN sample, Event.data writerSN sample ∈ events ∧ writerSN.value = n) ∨
  (∃ gap, Event.gap gap ∈ events ∧ Skipped gap n) ∨
  (∃ hb fragKeys, Event.heartbeat hb fragKeys ∈ events ∧ n < hb.firstSN.value)

/-- The timer does not nack while numbers are missing between the heartbeat's first and
the lowest one received, and the scan of a GAP's bitmap is exact. -/
def KeepsMissing (info : WriterInfo α) : Event α → Prop
  | .gap gap => GapFits info.recvd gap ∧ NoRunOn gap.gapList.numBits gap.gapList.bitmap
  | .reply _ _ => shouldNack info = true → info.recvd ≠ [] → low info.recvd ≤ info.hbRange.1
  | _ => True

def KeepingSteps (s : State α) (e : Event α) (after : State α) : Prop :=
  Steps true s e after ∧ KeepsMissing s.info e

theorem Accounted.later {events : List (Event α)} {n : Int} (h : Accounted events n) (e : Event α) :
    Accounted (events ++ [e]) n := by
  rcases h with ⟨sn, sample, hmem, h⟩ | ⟨gap, hmem, h⟩ | ⟨hb, keys, hmem, h⟩
  · exact .inl ⟨sn, sample, List.mem_append_left _ hmem, h⟩
  · exact .inr (.inl ⟨gap, List.mem_append_left _ hmem, h⟩)
  · exact .inr (.inr ⟨hb, keys, List.mem_append_left _ hmem, h⟩)

structure AllAccounted (events : List (Event α)) (s : State α) : Prop where
  wellFormed : WellFormed s.info.recvd
  recvd : ∀ n, 1 ≤ n → Covers s.info.recvd n → Accounted events n
  hbFirst : ∀ n, 1 ≤ n → n < s.info.hbRange.1 → Accounted events n
  acked : ∀ a ∈ s.acknacks, ∀ n, 1 ≤ n → n < a.bitmapBase → Accounted events n

theorem initial_allAccounted : AllAccounted [] (State.initial : State α) where
  wellFormed := wellFormed_nil
  recvd := by simp [State.initial, WriterInfo.default]
  hbFirst := by
    intro n h₁ h₂
    simp only [State.initial, WriterInfo.default] at h₂
    omega
  acked := by simp [State.initial]

variable {info : WriterInfo α} {out delivered : List (Int × α)}

section

variable {events : List (Event α)} {s : State α} {e : Event α}

theorem AllAccounted.extend (inv : AllAccounted events s) (after : State α)
    (hwf : WellFormed after.info.recvd)
    (hrecvd : ∀ n, 1 ≤ n → Covers after.info.recvd n →
      Covers s.info.recvd n ∨ Accounted (events ++ [e]) n)
    (hhb : ∀ n, 1 ≤ n → n < after.info.hbRange.1 → Accounted (events ++ [e]) n)
    (hack : ∀ a ∈ after.acknacks, a ∈ s.acknacks ∨
      ∀ n, 1 ≤ n → n < a.bitmapBase → Accounted (events ++ [e]) n) :
    AllAccounted (events ++ [e]) after where
  wellFormed := hwf
  recvd := by
    intro n hn hcov
    rcases hrecvd n hn hcov with h | h
    · exact (inv.recvd n hn h).later e
    · exact h
  hbFirst := hhb
  acked := by
    intro a ha n hn hlt
    rcases hack a ha with h | h
    · exact (inv.acked a h n hn hlt).later e
    · exact h n hn hlt

theorem AllAccounted.data (inv : AllAccounted events s) {writerSN : SequenceNumber_t} {sample : α}
    {withheld : Bool}
    (h : processDataI true s.info writerSN.value sample = .ok (withheld, out, info)) :
    AllAccounted (events ++ [.data writerSN sample])
      { s with info := info, delivered := delivered } := by
  obtain ⟨recvd, frags, updated, hwf, hcov, -, hupdated, -, rfl⟩ :=
    processDataI_effects inv.wellFormed writerSN.value_pos writerSN.value_le h
  obtain ⟨hr, hh⟩ := deliverHeldData_frame updated true
  rw [hupdated] at hr hh
  refine inv.extend _ ?_ (fun n hn hc => ?_) (fun n hn hlt => ?_) (fun a ha => .inl ha)
  · rw [hupdated, hr]
    exact hwf
  · rw [hupdated, hr] at hc
    rcases (hcov n).mp hc with h | rfl
    · exact .inl h
    · exact .inr (.inl ⟨writerSN, sample, by simp, rfl⟩)
  · rw [hupdated, hh] at hlt
    exact (inv.hbFirst n hn hlt).later _

theorem AllAccounted.gap (inv : AllAccounted events s) {fuel : Nat} {gap : GapSubmessage}
    (fits : GapFits s.info.recvd gap) (hclean : NoRunOn gap.gapList.numBits gap.gapList.bitmap)
    (h : processGapI fuel true s.info gap = .ok (out, info)) :
    AllAccounted (events ++ [.gap gap]) { s with info := info, delivered := delivered } := by
  obtain ⟨recvd, hwf, -, -, hadds, -, rfl⟩ := processGapI_effects inv.wellFormed fits h
  obtain ⟨hr, hh⟩ := deliverHeldData_frame { s.info with recvd := recvd } true
  refine inv.extend _ ?_ (fun n hn hc => ?_) (fun n hn hlt => ?_) (fun a ha => .inl ha)
  · rw [hr]
    exact hwf
  · rw [hr] at hc
    rcases hadds n hc with h | h | ⟨k, rfl, hdec⟩
    · exact .inl h
    · exact .inr (.inr (.inl ⟨gap, by simp, .inl h⟩))
    · exact .inr (.inr (.inl ⟨gap, by simp,
        Or.inr ⟨k, hdec.bound, hdec.bitSet_of_noRunOn hclean, rfl⟩⟩))
  · rw [hh] at hlt
    exact (inv.hbFirst n hn hlt).later _

theorem heartbeatRange_durable {first last n : Int} {r : Range}
    (h : r ∈ heartbeatRange true info first last) (hpos : 1 ≤ n) (hle : n ≤ r.2) : n < first := by
  simp only [heartbeatRange, Bool.not_true, Bool.false_and, Bool.false_eq_true, if_false] at h
  split at h
  · cases h
    by_cases hfirst : first > 1
    · simp only [minValue, hfirst, if_true] at hle
      rw [previous_of_ne (by omega)] at hle
      omega
    · simp only [minValue, hfirst, if_false, zero] at hle
      omega
  · cases h

theorem AllAccounted.heartbeat (inv : AllAccounted events s) {hb : HeartBeatSubmessage}
    {fragKeys : List Int} {timer : Bool}
    (h : processHeartbeatI true s.info hb fragKeys = .ok (out, info, timer)) :
    AllAccounted (events ++ [.heartbeat hb fragKeys])
      { s with info := info, delivered := delivered } := by
  have hbelow : ∀ n, n < hb.firstSN.value → Accounted (events ++ [.heartbeat hb fragKeys]) n :=
    fun n hlt => .inr (.inr ⟨hb, fragKeys, by simp, hlt⟩)
  rcases processHeartbeatI_effects h with ⟨-, -, rfl⟩ |
    ⟨-, recvd, updated, ackPending, hins, hupdated, -, rfl⟩
  · exact inv.extend _ inv.wellFormed (fun n _ hc => .inl hc)
      (fun n hn hlt => (inv.hbFirst n hn hlt).later _) (fun a ha => .inl ha)
  obtain ⟨hwf, hcov⟩ := insertOption_effects inv.wellFormed
    (heartbeatRange_bounds inv.wellFormed hb.firstSN.value_le hb.lastSN.value_le) hins
  obtain ⟨hr, hh⟩ := deliverHeldData_frame updated true
  rw [hupdated] at hr hh
  refine inv.extend _ ?_ (fun n hn hc => ?_) (fun n hn hlt => ?_) (fun a ha => .inl ha)
  · rw [hupdated, hr]
    exact hwf
  · rw [hupdated, hr] at hc
    rcases (hcov n).mp hc with h | ⟨r, hmem, -, hle⟩
    · exact .inl h
    · exact .inr (hbelow n (heartbeatRange_durable hmem hn hle))
  · rw [hupdated, hh] at hlt
    exact hbelow n hlt

theorem AllAccounted.reply (inv : AllAccounted events s) {fragKeys : List Int} {memory : Bitmap}
    {acknack : Option AckNackSubmessage}
    (hkeeps : shouldNack s.info = true → s.info.recvd ≠ [] → low s.info.recvd ≤ s.info.hbRange.1)
    (h : sendHeartbeatReplies true s.info fragKeys memory = .ok (acknack, info)) :
    AllAccounted (events ++ [.reply fragKeys memory])
      { s with info := info, acknacks := s.acknacks ++ acknack.toList } := by
  have hbFirst : ∀ n, 1 ≤ n → n < s.info.hbRange.1 →
      Accounted (events ++ [.reply fragKeys memory]) n :=
    fun n hn hlt => (inv.hbFirst n hn hlt).later _
  rcases sendHeartbeatReplies_effects h with ⟨rfl, rfl⟩ |
    ⟨recvd, start, sent, hstart, hguard, rfl, hbase, rfl⟩
  · exact inv.extend _ inv.wellFormed (fun n _ hc => .inl hc) hbFirst
      (fun a ha => .inl (by simpa using ha))
  rcases nackStart_effects inv.wellFormed hstart with ⟨rfl, hack⟩ | ⟨hne, hack, hlow, hgrow⟩
  · refine inv.extend _ inv.wellFormed (fun n _ hc => .inl hc) hbFirst (fun a ha => ?_)
    rcases List.mem_append.mp ha with ha | ha
    · exact .inl ha
    · obtain rfl : a = sent := by simpa using ha
      exact .inr fun n hn hlt => hbFirst n hn (by omega)
  -- the lower discontinuity is closed only below the heartbeat's first number
  have hlow : low s.info.recvd ≤ s.info.hbRange.1 := by
    cases hnack : shouldNack s.info with
    | true => exact hkeeps hnack hne
    | false => exact hlow rfl (by simpa [hnack, hne] using hguard) hnack
  have hacked : ∀ n, 1 ≤ n → n < next (cumulativeAck s.info.recvd) →
      Accounted (events ++ [.reply fragKeys memory]) n := by
    intro n hn hlt
    by_cases hbelow : n < low s.info.recvd
    · exact hbFirst n hn (by omega)
    · have hle : n ≤ cumulativeAck s.info.recvd := by
        unfold next at hlt
        split at hlt <;> omega
      exact (inv.recvd n hn (covers_of_le_cumulativeAck hne (by omega) hle)).later _
  refine inv.extend _ ?_ (fun n hn hc => ?_) hbFirst (fun a ha => ?_)
  · rcases hgrow with rfl | ⟨hwf, -⟩
    · exact inv.wellFormed
    · exact hwf
  · rcases hgrow with rfl | ⟨-, hcov⟩
    · exact .inl hc
    · rcases (hcov n).mp hc with h | h
      · exact .inl h
      · by_cases heq : n = low s.info.recvd
        · exact .inl (heq ▸ covers_low inv.wellFormed.canonical hne)
        · exact .inr (hbFirst n hn (by omega))
  · rcases List.mem_append.mp ha with ha | ha
    · exact .inl ha
    · obtain rfl : a = sent := by simpa using ha
      exact .inr fun n hn hlt => hacked n hn (by omega)

theorem AllAccounted.hbFrag (inv : AllAccounted events s) (hbFrag : HeartBeatFragSubmessage) :
    AllAccounted (events ++ [.hbFrag hbFrag])
      { s with info := (processHbFragI s.info hbFrag).1 } := by
  have hframe : (processHbFragI s.info hbFrag).1.recvd = s.info.recvd ∧
      (processHbFragI s.info hbFrag).1.hbRange = s.info.hbRange := by
    unfold processHbFragI
    split
    · exact ⟨rfl, rfl⟩
    · simp only
      split <;> exact ⟨rfl, rfl⟩
  refine inv.extend _ ?_ (fun n _ hc => .inl ?_) (fun n hn hlt => ?_) (fun a ha => .inl ha)
  · rw [hframe.1]
    exact inv.wellFormed
  · rwa [hframe.1] at hc
  · rw [hframe.2] at hlt
    exact (inv.hbFirst n hn hlt).later _

end

theorem keepingSteps_allAccounted (events : List (Event α)) (s : State α) (e : Event α)
    (after : State α) (inv : AllAccounted events s) (h : KeepingSteps s e after) :
    AllAccounted (events ++ [e]) after := by
  obtain ⟨⟨fuel, hstep⟩, hkeeps⟩ := h
  rcases step_cases hstep with ⟨writerSN, sample, withheld, out, info, rfl, hres, rfl⟩ |
    ⟨gap, out, info, rfl, hres, rfl⟩ | ⟨hb, fragKeys, out, info, timer, rfl, hres, rfl⟩ |
    ⟨hbFrag, rfl, rfl⟩ | ⟨fragKeys, memory, acknack, info, rfl, hres, rfl⟩
  · exact inv.data hres
  · exact inv.gap hkeeps.1 hkeeps.2 hres
  · exact inv.heartbeat hres
  · exact inv.hbFrag hbFrag
  · exact inv.reply hkeeps hres

/-- A durable reader that never nacks below its lowest number gives nothing up: what it
has received or acknowledged arrived, was skipped, or is no longer available. -/
theorem nothing_given_up {events : List (Event α)} {s : State α}
    (run : Run State.initial KeepingSteps events s) :
    (∀ n, 1 ≤ n → Covers s.info.recvd n → Accounted events n) ∧
    ∀ a ∈ s.acknacks, ∀ n, 1 ≤ n → n < a.bitmapBase → Accounted events n := by
  have inv : AllAccounted events s :=
    run.history AllAccounted initial_allAccounted keepingSteps_allAccounted
  exact ⟨inv.recvd, inv.acked⟩

/-- The reader's view after HEARTBEAT (1, 5) and DATA 3. -/
private def missingBelow : State Unit :=
  { info := { (WriterInfo.default : WriterInfo Unit) with
      recvd := [(3, 3)], held := [(3, ())], hbRange := (1, 5), ackPending := true,
      initialHb := false, heartbeatRecvdCount := 1 }
    delivered := []
    acknacks := [] }

private def heartbeatOneToFive : HeartBeatSubmessage :=
  { flags := 0, firstSN := ⟨0, 1⟩, lastSN := ⟨0, 5⟩, count := 1 }

private def afterHeartbeat : State Unit :=
  { info := { (WriterInfo.default : WriterInfo Unit) with
      hbRange := (1, 5), ackPending := true, initialHb := false, heartbeatRecvdCount := 1 }
    delivered := []
    acknacks := [] }

/-- The reader's view after HEARTBEAT (1, 5) and DATA 1. -/
private def firstReceived : State Unit :=
  { afterHeartbeat with
    info := { afterHeartbeat.info with recvd := [(1, 1)] }
    delivered := [(1, ())] }

private def repliedEvents : List (Event Unit) :=
  [.heartbeat heartbeatOneToFive [], .data ⟨0, 1⟩ (), .reply [] fun _ => 0]

/-- The reader holds number three and misses one and two: it has given up neither. With number
one received, the reply acknowledges no more than that. -/
theorem nothing_given_up_before_reply :
    (∃ s : State Unit, Run State.initial KeepingSteps
        [.heartbeat heartbeatOneToFive [], .data ⟨0, 3⟩ ()] s ∧ s.info.recvd = [(3, 3)] ∧
      ((∀ n, 1 ≤ n → Covers s.info.recvd n →
          Accounted [.heartbeat heartbeatOneToFive [], .data ⟨0, 3⟩ ()] n) ∧
        ∀ a ∈ s.acknacks, ∀ n, 1 ≤ n → n < a.bitmapBase →
          Accounted [.heartbeat heartbeatOneToFive [], .data ⟨0, 3⟩ ()] n)) ∧
    ∃ s : State Unit, Run State.initial KeepingSteps repliedEvents s ∧
      s.acknacks.map AckNackSubmessage.bitmapBase = [2] ∧
      ((∀ n, 1 ≤ n → Covers s.info.recvd n → Accounted repliedEvents n) ∧
        ∀ a ∈ s.acknacks, ∀ n, 1 ≤ n → n < a.bitmapBase → Accounted repliedEvents n) := by
  have h₁ : KeepingSteps State.initial (.heartbeat heartbeatOneToFive []) afterHeartbeat :=
    ⟨⟨0, rfl⟩, trivial⟩
  constructor
  · have h₂ : KeepingSteps afterHeartbeat (.data ⟨0, 3⟩ ()) missingBelow := ⟨⟨0, rfl⟩, trivial⟩
    have run := (Run.start.next h₁).next h₂
    exact ⟨missingBelow, run, rfl, nothing_given_up run⟩
  · have h₂ : KeepingSteps afterHeartbeat (.data ⟨0, 1⟩ ()) firstReceived := ⟨⟨0, rfl⟩, trivial⟩
    obtain ⟨after, h₃, hbase⟩ : ∃ after, KeepingSteps firstReceived (.reply [] fun _ => 0) after ∧
        after.acknacks.map AckNackSubmessage.bitmapBase = [2] :=
      ⟨_, ⟨⟨0, rfl⟩, fun _ _ => by decide⟩, rfl⟩
    have run := ((Run.start.next h₁).next h₂).next h₃
    exact ⟨after, run, hbase, nothing_given_up run⟩

/-- The reply timer marks one and two as received and acknowledges up to three. -/
theorem given_up_by_reply :
    ¬ ∀ (events : List (Event Unit)) (s : State Unit), Run State.initial (Steps true) events s →
      (∀ n, 1 ≤ n → Covers s.info.recvd n → Accounted events n) ∧
      ∀ a ∈ s.acknacks, ∀ n, 1 ≤ n → n < a.bitmapBase → Accounted events n := by
  intro claim
  have h₁ : Steps true State.initial (.heartbeat heartbeatOneToFive []) afterHeartbeat := ⟨0, rfl⟩
  have h₂ : Steps true afterHeartbeat (.data ⟨0, 3⟩ ()) missingBelow := ⟨0, rfl⟩
  obtain ⟨after, h₃, hrecvd⟩ : ∃ after, Steps true missingBelow (.reply [] fun _ => 0) after ∧
      after.info.recvd = [(0, 3)] := ⟨_, ⟨0, rfl⟩, rfl⟩
  have bad := (claim _ _ (((Run.start.next h₁).next h₂).next h₃)).1 1 (by decide)
    (by rw [hrecvd]; exact ⟨(0, 3), by simp, by decide, by decide⟩)
  rcases bad with ⟨writerSN, sample, hmem, hvalue⟩ | ⟨gap, hmem, -⟩ | ⟨hb, fragKeys, hmem, hlt⟩
  · obtain rfl : writerSN = ⟨0, 3⟩ := by simpa using hmem
    exact absurd hvalue (by decide)
  · simp at hmem
  · obtain ⟨rfl, -⟩ : hb = heartbeatOneToFive ∧ fragKeys = [] := by simpa using hmem
    exact absurd hlt (by decide)

end OpenDDS.Guarantees.DurableReader
