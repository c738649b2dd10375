import OpenDDS.Source.DisjointSequence

/-!
`OpenDDS::DCPS::WriterInfo` (dds/DCPS/WriterInfo.{h,cpp}): what a data reader keeps about
one of its writers, with the part of `DataReaderImpl::writer_activity` that records the
sequence number of a message. Times are in microseconds. `group_coherent_samples_` is
written and never read, so it is left out; liveliness and the flags for ownership are not
part of this record.
-/
namespace OpenDDS.Source
open Library.RangeList SequenceNumber DisjointSequence

inductive MessageId where
  | sampleData
  | datawriterLiveliness
  | instanceRegistration
  | unregisterInstance
  | disposeInstance
  | gracefulDisconnect
  | requestAck
  | sampleAck
  | endCoherentChanges
  | transportControl
  | disposeUnregisterInstance
  | endHistoricSamples
  deriving DecidableEq, Repr

def guidUnknown : Nat := 0

/-- The fields of a received `DataSampleHeader` that the reception of a sample reads. -/
structure SampleHeader where
  messageId : MessageId
  coherentChange : Bool
  groupCoherent : Bool
  sequenceRepair : Bool
  sequence : Int
  publicationId : Nat
  publisherId : Nat

structure WriterCoherentSample where
  numSamples : Nat
  lastSample : Int
  deriving DecidableEq, Repr

/-- `WriterCoherentSample::reset`, also the default constructor. -/
def WriterCoherentSample.reset : WriterCoherentSample := ⟨0, minValue⟩

structure CoherentChangeControl where
  coherentSamples : WriterCoherentSample
  groupCoherent : Bool
  publisherId : Nat

inductive CoherentState where
  | notCompletedYet
  | completed
  | rejected
  deriving DecidableEq, Repr

structure WriterInfo where
  writerId : Nat
  seenData : Bool
  ackSequence : List Range
  ackDeadlines : List (Int × Int)
  coherentSamples : Nat
  groupCoherent : Bool
  publisherId : Nat
  coherentSampleSequence : List Range
  writerCoherentSamples : WriterCoherentSample

variable {sequence : Int} {sent : Bool}

namespace WriterInfo

def create (writerId : Nat) : WriterInfo where
  writerId := writerId
  seenData := false
  ackSequence := []
  ackDeadlines := []
  coherentSamples := 0
  groupCoherent := false
  publisherId := guidUnknown
  coherentSampleSequence := []
  writerCoherentSamples := .reset

def clearAcks (w : WriterInfo) (sequence : Int) : WriterInfo :=
  { w with ackDeadlines := w.ackDeadlines.dropWhile fun entry => entry.1 ≤ sequence }

/-- The loop of `should_ack`: expired entries are erased up to the first one that is met. -/
def dueAck (acked : List Range) (now : Int) : List (Int × Int) → Bool × List (Int × Int)
  | [] => (false, [])
  | entry :: rest =>
    if entry.2 < now then dueAck acked now rest
    else if !DisjointSequence.empty acked && entry.1 ≤ cumulativeAck acked then (true, entry :: rest)
    else ((dueAck acked now rest).1, entry :: (dueAck acked now rest).2)

def shouldAck (w : WriterInfo) (now : Int) : Bool × WriterInfo :=
  ((dueAck w.ackSequence now w.ackDeadlines).1,
    { w with ackDeadlines := (dueAck w.ackSequence now w.ackDeadlines).2 })

/-- `ack_deadline`. Only the first entry is compared: a number above it is not recorded. -/
def ackDeadline (w : WriterInfo) (sequence deadline : Int) : WriterInfo :=
  match w.ackDeadlines with
  | [] => { w with ackDeadlines := [(sequence, deadline)] }
  | current :: rest =>
    if sequence < current.1 then { w with ackDeadlines := (sequence, deadline) :: current :: rest }
    else if sequence = current.1 then
      if current.2 < deadline then { w with ackDeadlines := (current.1, deadline) :: rest } else w
    else w

/-- `should_ack`, and if so `send_sample_ack` and `clear_acks` with the given number. What
is sent comes with the result of sending it. -/
def acknowledge (w : WriterInfo) (sequence now : Int) (sent : Bool) : Option Int × WriterInfo :=
  let after := (w.shouldAck now).2
  if (w.shouldAck now).1 then (some sequence, if sent then after.clearAcks sequence else after)
  else (none, after)

/-- The first sample, and one that repairs the sequence, is the end of the baseline. -/
def recordSequence (w : WriterInfo) (header : SampleHeader) : Except Fault WriterInfo :=
  if w.seenData && !header.sequenceRepair then
    match DisjointSequence.insert w.ackSequence header.sequence with
    | .error fault => .error fault
    | .ok (_, seqs) => .ok { w with ackSequence := seqs }
  else
    match insertI DisjointSequence.reset (minValue, header.sequence) with
    | .error fault => .error fault
    | .ok (_, seqs) => .ok { w with seenData := true, ackSequence := seqs }

/-- The first sample counted of a coherent set is the end of the baseline of that set. -/
def recordCoherent (w : WriterInfo) (header : SampleHeader) : Except Fault WriterInfo :=
  let inserted :=
    if w.coherentSamples = 0 then insertI DisjointSequence.reset (minValue, header.sequence)
    else DisjointSequence.insert w.coherentSampleSequence header.sequence
  match inserted with
  | .error fault => .error fault
  | .ok (_, seqs) => .ok { w with coherentSampleSequence := seqs }

/-- The messages whose sequence number counts. -/
def numbered : MessageId → Bool
  | .sampleData => true
  | .instanceRegistration => true
  | .unregisterInstance => true
  | .disposeInstance => true
  | .disposeUnregisterInstance => true
  | _ => false

/-- `DataReaderImpl::writer_activity` for the writer of the message. -/
def writerActivity (w : WriterInfo) (header : SampleHeader) : Except Fault WriterInfo :=
  if numbered header.messageId then
    match w.recordSequence header with
    | .error fault => .error fault
    | .ok w => if header.coherentChange then w.recordCoherent header else .ok w
  else .ok w

/-- A coherent sample that reached the reader: `coherent_samples_` has 32 bits. -/
def countCoherent (w : WriterInfo) (header : SampleHeader) : WriterInfo :=
  if header.coherentChange then
    { w with
      groupCoherent := header.groupCoherent
      publisherId := header.publisherId
      coherentSamples := (w.coherentSamples + 1) % 2 ^ 32 }
  else w

/-- `coherent_change_received`. It takes `high()` of the set, which is undefined when no
sample was recorded. -/
def coherentChangeReceived (w : WriterInfo) : Except Fault CoherentState :=
  if w.writerCoherentSamples.numSamples = 0 then .ok .notCompletedYet
  else if DisjointSequence.empty w.coherentSampleSequence then .error .emptySequence
  else if !disjoint w.coherentSampleSequence &&
      high w.coherentSampleSequence = w.writerCoherentSamples.lastSample then .ok .completed
  else if high w.coherentSampleSequence > w.writerCoherentSamples.lastSample then .ok .rejected
  else .ok .notCompletedYet

def resetCoherentInfo (w : WriterInfo) : WriterInfo :=
  { w with
    coherentSamples := 0
    groupCoherent := false
    publisherId := guidUnknown
    coherentSampleSequence := DisjointSequence.reset
    writerCoherentSamples := .reset }

/-- `set_group_info`, which only complains about a publisher that does not match. -/
def setGroupInfo (w : WriterInfo) (info : CoherentChangeControl) : WriterInfo :=
  { w with writerCoherentSamples := info.coherentSamples }

section

variable {w : WriterInfo} {header : SampleHeader}

theorem recordSequence_spec (wf : WellFormed w.ackSequence) (hpos : 1 ≤ header.sequence)
    (hmax : header.sequence ≤ maxValue) :
    ∃ seqs, w.recordSequence header = .ok { w with seenData := true, ackSequence := seqs } ∧
      WellFormed seqs ∧ ∀ n, Covers seqs n ↔
        if w.seenData && !header.sequenceRepair then Covers w.ackSequence n ∨ n = header.sequence
        else 1 ≤ n ∧ n ≤ header.sequence := by
  by_cases hseen : (w.seenData && !header.sequenceRepair) = true
  · obtain ⟨grew, seqs, heq, hwf, hcov⟩ := insert_spec wf (by omega) hmax
    have hsame : w.seenData = true := by simp only [Bool.and_eq_true] at hseen; exact hseen.1
    refine ⟨seqs, ?_, hwf, by simpa [hseen] using hcov⟩
    simp only [recordSequence, hseen, if_true, heq, ← hsame]
  · obtain ⟨grew, seqs, heq, hwf, hcov⟩ :=
      insertI_reset (minValue, header.sequence) (by simp [minValue]) hpos hmax
    refine ⟨seqs, by simp only [recordSequence, hseen, if_false, heq, Bool.false_eq_true], hwf, ?_⟩
    simpa [hseen, minValue] using hcov

theorem recordCoherent_spec (wf : WellFormed w.coherentSampleSequence) (hpos : 1 ≤ header.sequence)
    (hmax : header.sequence ≤ maxValue) :
    ∃ seqs, w.recordCoherent header = .ok { w with coherentSampleSequence := seqs } ∧
      WellFormed seqs ∧ ∀ n, Covers seqs n ↔
        if w.coherentSamples = 0 then 1 ≤ n ∧ n ≤ header.sequence
        else Covers w.coherentSampleSequence n ∨ n = header.sequence := by
  by_cases hzero : w.coherentSamples = 0
  · obtain ⟨grew, seqs, heq, hwf, hcov⟩ :=
      insertI_reset (minValue, header.sequence) (by simp [minValue]) hpos hmax
    refine ⟨seqs, by simp [recordCoherent, hzero, heq], hwf, ?_⟩
    simpa [hzero, minValue] using hcov
  · obtain ⟨grew, seqs, heq, hwf, hcov⟩ := insert_spec wf (by omega) hmax
    refine ⟨seqs, by simp [recordCoherent, hzero, heq], hwf, ?_⟩
    simpa [hzero] using hcov

theorem countCoherent_frame (w : WriterInfo) (header : SampleHeader) :
    (w.countCoherent header).writerId = w.writerId ∧
      (w.countCoherent header).ackSequence = w.ackSequence ∧
      (w.countCoherent header).ackDeadlines = w.ackDeadlines ∧
      (w.countCoherent header).seenData = w.seenData ∧
      (w.countCoherent header).coherentSampleSequence = w.coherentSampleSequence ∧
      (w.countCoherent header).writerCoherentSamples = w.writerCoherentSamples := by
  unfold countCoherent
  split
  · exact ⟨rfl, rfl, rfl, rfl, rfl, rfl⟩
  · exact ⟨rfl, rfl, rfl, rfl, rfl, rfl⟩

end

section

variable {acked : List Range} {now : Int} {entry : Int × Int} {entries : List (Int × Int)}
  {w : WriterInfo}

/-- The entry has not expired and its number lies within the contiguous prefix. -/
def Due (acked : List Range) (now : Int) (entry : Int × Int) : Prop :=
  now ≤ entry.2 ∧ acked ≠ [] ∧ entry.1 ≤ cumulativeAck acked

theorem dueAck_eq_true : (dueAck acked now entries).1 = true ↔ ∃ e ∈ entries, Due acked now e := by
  induction entries with
  | nil => simp [dueAck]
  | cons e rest ih =>
    rw [dueAck]
    split
    · have hnot : ¬ Due acked now e := fun h => absurd h.1 (by omega)
      simp [ih, hnot]
    · split
      · rename_i hmet
        have hdue : Due acked now e := by
          simp only [Bool.and_eq_true, Bool.not_eq_true', decide_eq_true_eq] at hmet
          refine ⟨by omega, ?_, hmet.2⟩
          rintro rfl
          simp [DisjointSequence.empty] at hmet
        simp [hdue]
      · rename_i hmet
        have hnot : ¬ Due acked now e := by
          rintro ⟨-, hne, hle⟩
          exact hmet (by simp [DisjointSequence.empty, hne, hle])
        simp [ih, hnot]

theorem mem_dueAck (hmem : entry ∈ entries) (hlive : now ≤ entry.2) :
    entry ∈ (dueAck acked now entries).2 := by
  induction entries with
  | nil => cases hmem
  | cons e rest ih =>
    rw [dueAck]
    split
    · rcases List.mem_cons.mp hmem with rfl | hmem
      · omega
      · exact ih hmem
    · split
      · exact hmem
      · rcases List.mem_cons.mp hmem with rfl | hmem
        · exact List.mem_cons_self
        · exact List.mem_cons_of_mem _ (ih hmem)

theorem acknowledge_due (h : (dueAck w.ackSequence now w.ackDeadlines).1 = true) :
    w.acknowledge sequence now sent =
      (some sequence, if sent then (w.shouldAck now).2.clearAcks sequence else (w.shouldAck now).2) :=
  if_pos h

theorem acknowledge_idle (h : ¬ (dueAck w.ackSequence now w.ackDeadlines).1 = true) :
    w.acknowledge sequence now sent = (none, (w.shouldAck now).2) :=
  if_neg h

theorem acknowledge_eq_some {sequence ack : Int} : (w.acknowledge sequence now sent).1 = some ack ↔
      ack = sequence ∧ ∃ e ∈ w.ackDeadlines, Due w.ackSequence now e := by
  rw [← dueAck_eq_true]
  by_cases hdue : (dueAck w.ackSequence now w.ackDeadlines).1 = true
  · rw [acknowledge_due hdue]
    simp [hdue, eq_comm]
  · rw [acknowledge_idle hdue]
    simp [hdue]

theorem mem_acknowledge (hmem : entry ∈ w.ackDeadlines) (hlive : now ≤ entry.2)
    (habove : (w.acknowledge sequence now sent).1 = some sequence → sequence < entry.1) :
    entry ∈ (w.acknowledge sequence now sent).2.ackDeadlines := by
  have hkept : entry ∈ (w.shouldAck now).2.ackDeadlines := mem_dueAck hmem hlive
  by_cases hdue : (dueAck w.ackSequence now w.ackDeadlines).1 = true
  · rw [acknowledge_due hdue] at habove ⊢
    have hlt := habove rfl
    cases sent with
    | false => exact hkept
    | true =>
      have hsplit := List.takeWhile_append_dropWhile (p := fun e : Int × Int => e.1 ≤ sequence)
        (l := (w.shouldAck now).2.ackDeadlines)
      rw [← hsplit] at hkept
      rcases List.mem_append.mp hkept with hcleared | hkept
      · have hle := List.mem_takeWhile_imp hcleared
        simp only [decide_eq_true_eq] at hle
        omega
      · exact hkept
  · rw [acknowledge_idle hdue]
    exact hkept

theorem acknowledge_frame (w : WriterInfo) (sequence now : Int) (sent : Bool) :
    ∃ entries, (w.acknowledge sequence now sent).2 = { w with ackDeadlines := entries } := by
  by_cases hdue : (dueAck w.ackSequence now w.ackDeadlines).1 = true
  · rw [acknowledge_due hdue]
    cases sent with
    | false => exact ⟨_, rfl⟩
    | true => exact ⟨_, rfl⟩
  · rw [acknowledge_idle hdue]
    exact ⟨_, rfl⟩

theorem ackDeadline_keeps (sequence deadline : Int) (hmem : entry ∈ w.ackDeadlines) :
    ∃ later, entry.2 ≤ later ∧ (entry.1, later) ∈ (w.ackDeadline sequence deadline).ackDeadlines := by
  unfold ackDeadline
  split
  · rename_i hnil
    rw [hnil] at hmem
    cases hmem
  · rename_i current rest hcons
    rw [hcons] at hmem
    split
    · exact ⟨entry.2, le_rfl, List.mem_cons_of_mem _ hmem⟩
    · split
      · split
        · rcases List.mem_cons.mp hmem with rfl | hmem
          · exact ⟨deadline, by omega, List.mem_cons_self⟩
          · exact ⟨entry.2, le_rfl, List.mem_cons_of_mem _ hmem⟩
        · exact ⟨entry.2, le_rfl, hcons ▸ hmem⟩
      · exact ⟨entry.2, le_rfl, hcons ▸ hmem⟩

theorem ackDeadline_records (deadline : Int) (hfirst : ∀ e ∈ w.ackDeadlines.head?, sequence ≤ e.1) :
    ∃ later, deadline ≤ later ∧ (sequence, later) ∈ (w.ackDeadline sequence deadline).ackDeadlines := by
  unfold ackDeadline
  split
  · exact ⟨deadline, le_rfl, List.mem_singleton_self _⟩
  · rename_i current rest hcons
    have hle : sequence ≤ current.1 := hfirst current (by simp [hcons])
    split
    · exact ⟨deadline, le_rfl, List.mem_cons_self⟩
    · rw [if_pos (by omega)]
      obtain rfl : sequence = current.1 := by omega
      split
      · exact ⟨deadline, le_rfl, List.mem_cons_self⟩
      · exact ⟨current.2, by omega, hcons ▸ List.mem_cons_self⟩

theorem mem_ackDeadline {sequence deadline : Int}
    (hmem : entry ∈ (w.ackDeadline sequence deadline).ackDeadlines) :
    entry ∈ w.ackDeadlines ∨ entry.1 = sequence := by
  unfold ackDeadline at hmem
  split at hmem
  · rw [List.mem_singleton.mp hmem]
    exact .inr rfl
  · rename_i current rest hcons
    rw [hcons]
    split at hmem
    · rcases List.mem_cons.mp hmem with rfl | hmem
      · exact .inr rfl
      · exact .inl hmem
    · split at hmem
      · split at hmem
        · rcases List.mem_cons.mp hmem with rfl | hmem
          · rename_i hsame hlater
            exact .inr hsame.symm
          · exact .inl (List.mem_cons_of_mem _ hmem)
        · exact .inl (hcons ▸ hmem)
      · exact .inl (hcons ▸ hmem)

theorem ackDeadline_frame (w : WriterInfo) (sequence deadline : Int) :
    ∃ entries, w.ackDeadline sequence deadline = { w with ackDeadlines := entries } := by
  unfold ackDeadline
  split
  · exact ⟨_, rfl⟩
  · split
    · exact ⟨_, rfl⟩
    · split
      · split
        · exact ⟨_, rfl⟩
        · exact ⟨_, rfl⟩
      · exact ⟨_, rfl⟩

end

end WriterInfo

end OpenDDS.Source
