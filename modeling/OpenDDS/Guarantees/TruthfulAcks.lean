import OpenDDS.Library.Run
import OpenDDS.Source.SampleReception

/-!
# Acknowledgements of a reader

What a SAMPLE_ACK says is true as long as the number it carries is within the contiguous
prefix of what was received. The reader decides by that prefix whether an acknowledgement
is due, but puts the number of the message at hand into it: the sample that fills a gap
acknowledges only itself, the request it was to answer stays, and the next sample beyond a
new gap acknowledges what was lost. A request above the first pending one is not recorded
at all, and a sample that is filtered answers nothing.
-/
namespace OpenDDS.Guarantees.TruthfulAcks
open Library Library.RangeList Source Source.SequenceNumber Source.DisjointSequence
open Source.WriterInfo Source.SampleReception

section

def start (scope : AccessScope) (coherentAccess : Bool) (writer : Nat) : Subscriber where
  accessScope := scope
  coherentAccess := coherentAccess
  readers := fun _ => { writers := [.create writer], samples := [] }
  datareaderSet := []
  decisions := []

/-- The samples that are neither expired nor filtered. -/
def passes : Outcome → Bool
  | .expired => false
  | .filtered => false
  | .refused => true
  | .stored => true

/-- A data message or a request of the writer. The first sample carries number one. -/
def InDomain (writer : Nat) (s : Subscriber) : Message → Prop
  | .data header _ _ _ =>
    (header.messageId = .sampleData ∨ header.messageId = .instanceRegistration) ∧
    header.publicationId = writer ∧ header.sequenceRepair = false ∧
    1 ≤ header.sequence ∧ header.sequence ≤ maxValue ∧
    ∀ w ∈ (s.readers 0).writers, w.seenData = false → header.sequence = 1
  | .requestAck header _ _ _ _ => header.messageId = .requestAck ∧ header.publicationId = writer
  | .endCoherentChanges _ _ => False

def Receives (writer : Nat) (s : Subscriber) (m : Message) (after : Subscriber) : Prop :=
  InDomain writer s m ∧ ∃ ack, s.dataReceived 0 m = .ok (ack, after)

/-- The requests with their deadlines, and the times read. -/
def request : Message → Option (Int × Int)
  | .requestAck _ ack delay now _ => some (ack, durationToAbsoluteTimeValue delay now)
  | _ => none

def requests (ms : List Message) : List (Int × Int) := ms.filterMap request

def time : Message → Option Int
  | .data _ _ now _ => some now
  | .requestAck _ _ _ now _ => some now
  | .endCoherentChanges _ _ => none

def times (ms : List Message) : List Int := ms.filterMap time

/-- The contiguous prefix of what was received reaches `d`. -/
def Reached (ms : List Message) (d : Int) : Prop :=
  received ms ≠ [] ∧ ∀ n, 1 ≤ n → n ≤ d → n ∈ received ms

/-- Everything up to the acknowledged number was received. -/
def Truthful (ms : List Message) (ack : Option Int) : Prop :=
  ∀ s ∈ ack, ∀ n, 1 ≤ n → n ≤ s → n ∈ received ms

/-- A request whose deadline has not passed is answered when the prefix first reaches it. -/
def Answers (ms : List Message) (m : Message) (ack : Option Int) : Prop :=
  ∀ r ∈ requests ms, (∀ t ∈ times (ms ++ [m]), t ≤ r.2) → ¬ Reached ms r.1 →
    Reached (ms ++ [m]) r.1 → ∃ s ∈ ack, r.1 ≤ s

/-- The numbers received, with one more, have no gap up to `d`. -/
def Unbroken (seqs : List Range) (m : Option Int) (d : Int) : Prop :=
  (seqs ≠ [] ∨ m ≠ none) ∧ ∀ n, 1 ≤ n → n ≤ d → Covers seqs n ∨ m = some n

/-- The condition on a message. When a sample arrives while a pending request lies within
the prefix, so does the sample; a sample that makes the prefix reach a pending request is
not filtered and not below the requested number. A request arrives either within the prefix
or not above the first pending one, and then no pending request lies within the prefix. -/
def Answerable (w : WriterInfo) : Message → Prop
  | .data header outcome now _ =>
    (passes outcome = true → ∀ e ∈ w.ackDeadlines, now ≤ e.2 →
      Unbroken w.ackSequence (some header.sequence) e.1 →
      Unbroken w.ackSequence (some header.sequence) header.sequence) ∧
    ∀ e ∈ w.ackDeadlines, now ≤ e.2 → ¬ Unbroken w.ackSequence none e.1 →
      Unbroken w.ackSequence (some header.sequence) e.1 →
      passes outcome = true ∧ e.1 ≤ header.sequence
  | .requestAck _ ack _ now _ =>
    Unbroken w.ackSequence none ack ∨
      ((∀ e ∈ w.ackDeadlines, now ≤ e.2 → ¬ Unbroken w.ackSequence none e.1) ∧
        ∀ e ∈ w.ackDeadlines.head?, ack ≤ e.1)
  | .endCoherentChanges _ _ => True

def ReceivesAnswerable (writer : Nat) (s : Subscriber) (m : Message) (after : Subscriber) : Prop :=
  Receives writer s m after ∧ ∀ w ∈ (s.readers 0).writers, Answerable w m

end

section

variable {s : Subscriber} {w w' : WriterInfo} {header : SampleHeader}

theorem verify_writers (h : w.writerCoherentSamples.numSamples = 0) :
    ∃ after, s.verifyCoherentChangesCompletion 0 w = .ok after ∧
      (after.readers 0).writers = (s.readers 0).writers := by
  have hstate : w.coherentChangeReceived = .ok .notCompletedYet := by
    simp [coherentChangeReceived, h]
  unfold Subscriber.verifyCoherentChangesCompletion
  rw [hstate]
  simp only
  split
  · exact ⟨_, rfl, by simp [Subscriber.setReader, Reader.acceptCoherent]⟩
  · split
    · exact ⟨s, rfl, rfl⟩
    · exact ⟨s, rfl, rfl⟩

/-- What becomes of a sample once its number is recorded. -/
def answer (w : WriterInfo) (header : SampleHeader) (outcome : Outcome) (now : Int) (sent : Bool) :
    Option Int × WriterInfo :=
  if passes outcome then (w.countCoherent header).acknowledge header.sequence now sent
  else (none, w)

theorem acceptData_single (hwriters : (s.readers 0).writers = [w])
    (hid : w.writerId = header.publicationId) (hquiet : w.writerCoherentSamples.numSamples = 0)
    (now : Int) (sent : Bool) :
    ∃ after, s.acceptData 0 header now sent =
        .ok (((w.countCoherent header).acknowledge header.sequence now sent).1, after) ∧
      (after.readers 0).writers =
        [((w.countCoherent header).acknowledge header.sequence now sent).2] := by
  obtain ⟨hwid, -, -, -, -, hsamples⟩ := countCoherent_frame w header
  obtain ⟨entries, hframe⟩ := acknowledge_frame (w.countCoherent header) header.sequence now sent
  unfold Subscriber.acceptData
  rw [findWriter_single hwriters hid]
  simp only
  generalize (w.countCoherent header).acknowledge header.sequence now sent = acked at *
  have hset : ((s.setReader 0 ((s.readers 0).setWriter acked.2)).readers 0).writers = [acked.2] := by
    have hwid' : acked.2.writerId = w.writerId := by
      rw [hframe]
      exact hwid
    simp only [Subscriber.setReader, Function.update_self, setWriter_single hwriters hwid']
  split
  · have hnone : acked.2.writerCoherentSamples.numSamples = 0 := by
      rw [hframe]
      simpa [hsamples] using hquiet
    obtain ⟨after, hverify, hafter⟩ := verify_writers
      (s := s.setReader 0 ((s.readers 0).setWriter acked.2)) hnone
    exact ⟨after, by rw [hverify]; rfl, hafter.trans hset⟩
  · exact ⟨_, rfl, hset⟩

theorem dataReceived_data (hwriters : (s.readers 0).writers = [w])
    (hid : w.writerId = header.publicationId) (hactivity : w.writerActivity header = .ok w')
    (hid' : w'.writerId = w.writerId) (hquiet : w'.writerCoherentSamples.numSamples = 0)
    (outcome : Outcome) (now : Int) (sent : Bool) :
    ∃ after, s.dataReceived 0 (.data header outcome now sent) =
        .ok ((answer w' header outcome now sent).1, after) ∧
      (after.readers 0).writers = [(answer w' header outcome now sent).2] := by
  have hs' := writerActivity_single hwriters hid hactivity hid'
  generalize hset : s.setReader 0 { s.readers 0 with writers := [w'] } = s' at hs'
  have hw' : (s'.readers 0).writers = [w'] := by
    rw [← hset]
    simp [Subscriber.setReader]
  have hw'' : ((s'.readerWithData 0).readers 0).writers = [w'] := by
    rw [readerWithData_readers]
    exact hw'
  have hpub : w'.writerId = header.publicationId := hid'.trans hid
  simp only [Subscriber.dataReceived, hs']
  cases outcome with
  | expired => exact ⟨s', rfl, hw'⟩
  | filtered => exact ⟨s'.readerWithData 0, rfl, hw''⟩
  | refused => exact acceptData_single hw'' hpub hquiet now sent
  | stored =>
    have hstored : (((s'.readerWithData 0).store 0 header).readers 0).writers = [w'] := by
      exact hw''
    exact acceptData_single hstored hpub hquiet now sent

theorem dataReceived_requestAck (ack now : Int) (delay : Duration_t) (sent : Bool)
    (hwriters : (s.readers 0).writers = [w]) (hid : w.writerId = header.publicationId)
    (hmessage : header.messageId = .requestAck) :
    ∃ after, s.dataReceived 0 (.requestAck header ack delay now sent) =
        .ok (((w.ackDeadline ack (durationToAbsoluteTimeValue delay now)).acknowledge
          ack now sent).1, after) ∧
      (after.readers 0).writers =
        [((w.ackDeadline ack (durationToAbsoluteTimeValue delay now)).acknowledge ack now sent).2] := by
  have hactivity : w.writerActivity header = .ok w := by
    simp [WriterInfo.writerActivity, hmessage, numbered]
  have hs' := writerActivity_single hwriters hid hactivity rfl
  generalize hset : s.setReader 0 { s.readers 0 with writers := [w] } = s' at hs'
  have hw' : (s'.readers 0).writers = [w] := by
    rw [← hset]
    simp [Subscriber.setReader]
  simp only [Subscriber.dataReceived, hs', findWriter_single hw' hid]
  refine ⟨_, rfl, ?_⟩
  obtain ⟨entries, hdeadline⟩ :=
    ackDeadline_frame w ack (durationToAbsoluteTimeValue delay now)
  obtain ⟨entries', hframe⟩ := acknowledge_frame
    (w.ackDeadline ack (durationToAbsoluteTimeValue delay now)) ack now sent
  have hid' : ((w.ackDeadline ack (durationToAbsoluteTimeValue delay now)).acknowledge ack now
      sent).2.writerId = w.writerId := by
    rw [hframe, hdeadline]
  simp only [Subscriber.setReader, Function.update_self, setWriter_single hw' hid']

end

variable {outcome : Outcome} {sent : Bool} {now : Int}

section

variable {s : Subscriber} {w w' : WriterInfo} {writer : Nat} {header : SampleHeader}
  {ms : List Message} {m : Message} {seqs : List Range} {d : Int}

/-- The received numbers as the reader sees them. No coherent set was ended. -/
structure Tracks (ms : List Message) (w : WriterInfo) : Prop where
  wellFormed : WellFormed w.ackSequence
  covers : ∀ n, Covers w.ackSequence n ↔ n ∈ received ms
  positive : ∀ n ∈ received ms, 1 ≤ n
  first : received ms ≠ [] → 1 ∈ received ms
  seen : w.seenData = false ↔ received ms = []
  quiet : w.writerCoherentSamples.numSamples = 0
  coherent : WellFormed w.coherentSampleSequence

/-- The requests that the reader still has to answer are pending. -/
structure Follows (writer : Nat) (ms : List Message) (s : Subscriber) (w : WriterInfo) : Prop
    extends Tracks ms w where
  pending : ∀ r ∈ requests ms, (∀ t ∈ times ms, t ≤ r.2) → ¬ Reached ms r.1 →
    ∃ later, r.2 ≤ later ∧ (r.1, later) ∈ w.ackDeadlines
  writers : (s.readers 0).writers = [w]
  id : w.writerId = writer

theorem Tracks.empty_iff (h : Tracks ms w) : received ms = [] ↔ w.ackSequence = [] := by
  constructor
  · intro hnil
    by_contra hne
    have hlow := (h.covers _).mp (covers_low h.wellFormed.canonical hne)
    rw [hnil] at hlow
    cases hlow
  · intro hnil
    by_contra hne
    have hone := (h.covers 1).mpr (h.first hne)
    rw [hnil] at hone
    exact covers_nil 1 hone

theorem Tracks.reached_iff (h : Tracks ms w) : Reached ms d ↔ Unbroken w.ackSequence none d := by
  simp only [Reached, Unbroken, ne_eq, h.empty_iff, h.covers, not_true_eq_false, or_false,
    reduceCtorEq]

theorem Tracks.due_iff (h : Tracks ms w) {e : Int × Int} :
    Due w.ackSequence now e ↔ now ≤ e.2 ∧ Reached ms e.1 := by
  have hlow : w.ackSequence ≠ [] → low w.ackSequence = 1 := by
    intro hne
    have hcov := (h.covers _).mp (covers_low h.wellFormed.canonical hne)
    have hpos := h.positive _ hcov
    have hone := (h.covers 1).mpr (h.first (List.ne_nil_of_mem hcov))
    have hle := low_le h.wellFormed.canonical hone
    omega
  rw [h.reached_iff]
  simp only [Due, Unbroken, ne_eq, not_true_eq_false, or_false, reduceCtorEq]
  constructor
  · rintro ⟨hlive, hne, hle⟩
    refine ⟨hlive, hne, ?_⟩
    intro n hpos hn
    exact covers_of_le_cumulativeAck hne (by rw [hlow hne]; exact hpos) (by omega)
  · rintro ⟨hlive, hne, hall⟩
    refine ⟨hlive, hne, ?_⟩
    apply le_cumulativeAck h.wellFormed.canonical hne
    intro n hn hnd
    rw [hlow hne] at hn
    exact hall n hn hnd

theorem requests_concat : requests (ms ++ [m]) = requests ms ++ (request m).toList := by
  rw [requests, List.filterMap_append]
  cases m <;> rfl

theorem times_concat : times (ms ++ [m]) = times ms ++ (time m).toList := by
  rw [times, List.filterMap_append]
  cases m <;> rfl

theorem Reached.mono (h : Reached ms d) : Reached (ms ++ [m]) d := by
  rw [Reached, received_concat]
  refine ⟨by simp [h.1], ?_⟩
  intro n hpos hn
  exact List.mem_append_left _ (h.2 n hpos hn)

theorem Reached.le {d' : Int} (h : Reached ms d) (hle : d' ≤ d) : Reached ms d' :=
  ⟨h.1, fun n hpos hn => h.2 n hpos (hn.trans hle)⟩

theorem Tracks.reached_concat (h : Tracks ms w) :
    Reached (ms ++ [.data header outcome now sent]) d ↔
      Unbroken w.ackSequence (some header.sequence) d := by
  simp only [Reached, Unbroken, received_concat, number, Option.toList, h.covers, List.mem_append,
    List.mem_singleton, Option.some.injEq, ne_eq, reduceCtorEq, not_false_eq_true, or_true,
    List.append_eq_nil_iff, List.cons_ne_self, and_false, true_and]
  constructor
  · intro hall n hpos hn
    exact (hall n hpos hn).imp_right Eq.symm
  · intro hall n hpos hn
    exact (hall n hpos hn).imp_right Eq.symm

theorem Tracks.congr (h : Tracks ms w) (seqs : w'.ackSequence = w.ackSequence)
    (seen : w'.seenData = w.seenData)
    (samples : w'.writerCoherentSamples = w.writerCoherentSamples)
    (coherent : w'.coherentSampleSequence = w.coherentSampleSequence) : Tracks ms w' where
  wellFormed := by rw [seqs]; exact h.wellFormed
  covers := by rw [seqs]; exact h.covers
  positive := h.positive
  first := h.first
  seen := by rw [seen]; exact h.seen
  quiet := by rw [samples]; exact h.quiet
  coherent := by rw [coherent]; exact h.coherent

theorem Tracks.record (h : Tracks ms w) (hwriters : (s.readers 0).writers = [w])
    (hdom : InDomain writer s (.data header outcome now sent)) :
    ∃ w', w.writerActivity header = .ok w' ∧ Tracks (ms ++ [.data header outcome now sent]) w' ∧
      w'.writerId = w.writerId ∧ w'.ackDeadlines = w.ackDeadlines := by
  obtain ⟨hmessage, -, hrepair, hpos, hmax, hfirst⟩ := hdom
  have hnumbered : numbered header.messageId = true := by
    rcases hmessage with hid | hid <;> rw [hid] <;> rfl
  have hbase : w.seenData = false → w.ackSequence = [] ∧ header.sequence = 1 := fun hseen =>
    ⟨h.empty_iff.mp (h.seen.mp hseen), hfirst w (by simp [hwriters]) hseen⟩
  obtain ⟨seqs, hrecord, hwf, hrecorded⟩ := recordSequence_spec h.wellFormed hpos hmax
  -- The baseline is the first number alone.
  have hcov : ∀ n, Covers seqs n ↔ Covers w.ackSequence n ∨ n = header.sequence := by
    intro n
    rw [hrecorded, hrepair]
    cases hseen : w.seenData with
    | true => simp
    | false =>
      rw [(hbase hseen).1, (hbase hseen).2]
      simp only [Bool.not_false, Bool.and_true, Bool.false_eq_true, if_false, covers_nil, false_or]
      omega
  have hreceived : received (ms ++ [.data header outcome now sent]) =
      received ms ++ [header.sequence] := received_concat ..
  have htracks : Tracks (ms ++ [.data header outcome now sent])
      { w with seenData := true, ackSequence := seqs } := by
    constructor
    · exact hwf
    · intro n
      rw [hcov, h.covers, hreceived]
      simp
    · intro n hn
      rw [hreceived] at hn
      rcases List.mem_append.mp hn with hn | hn
      · exact h.positive n hn
      · rw [List.mem_singleton.mp hn]
        exact hpos
    · intro _
      rw [hreceived]
      by_cases hnone : received ms = []
      · rw [(hbase (h.seen.mpr hnone)).2]
        simp
      · exact List.mem_append_left _ (h.first hnone)
    · simp [hreceived]
    · exact h.quiet
    · exact h.coherent
  cases hcoherent : header.coherentChange with
  | false =>
    exact ⟨_, by simp [WriterInfo.writerActivity, hnumbered, hrecord, hcoherent], htracks, rfl, rfl⟩
  | true =>
    obtain ⟨seqs', hrecord', hwf', -⟩ := recordCoherent_spec
      (w := { w with seenData := true, ackSequence := seqs }) h.coherent hpos hmax
    refine ⟨{ w with seenData := true, ackSequence := seqs, coherentSampleSequence := seqs' }, ?_,
      ?_, rfl, rfl⟩
    · simp [WriterInfo.writerActivity, hnumbered, hrecord, hcoherent, hrecord']
    · exact { htracks with coherent := hwf' }

theorem answer_frame (w : WriterInfo) (header : SampleHeader) (outcome : Outcome) (now : Int)
    (sent : Bool) :
    (answer w header outcome now sent).2.writerId = w.writerId ∧
      (answer w header outcome now sent).2.ackSequence = w.ackSequence ∧
      (answer w header outcome now sent).2.seenData = w.seenData ∧
      (answer w header outcome now sent).2.writerCoherentSamples = w.writerCoherentSamples ∧
      (answer w header outcome now sent).2.coherentSampleSequence = w.coherentSampleSequence := by
  unfold answer
  split
  · obtain ⟨h₁, h₂, -, h₃, h₄, h₅⟩ := countCoherent_frame w header
    obtain ⟨entries, hframe⟩ := acknowledge_frame (w.countCoherent header) header.sequence now sent
    rw [hframe]
    exact ⟨h₁, h₂, h₃, h₅, h₄⟩
  · exact ⟨rfl, rfl, rfl, rfl, rfl⟩

theorem answer_eq_some {now ack : Int} :
    (answer w header outcome now sent).1 = some ack ↔ passes outcome = true ∧
      ack = header.sequence ∧ ∃ e ∈ w.ackDeadlines, Due w.ackSequence now e := by
  obtain ⟨-, hseqs, hdeadlines, -⟩ := countCoherent_frame w header
  unfold answer
  split
  · rename_i hpasses
    rw [acknowledge_eq_some, hseqs, hdeadlines]
    simp [hpasses]
  · rename_i hpasses
    simp [hpasses]

theorem mem_answer {e : Int × Int} (hmem : e ∈ w.ackDeadlines) (hlive : now ≤ e.2)
    (habove : (answer w header outcome now sent).1 = some header.sequence → header.sequence < e.1) :
    e ∈ (answer w header outcome now sent).2.ackDeadlines := by
  obtain ⟨-, -, hdeadlines, -⟩ := countCoherent_frame w header
  unfold answer at habove ⊢
  split
  · rename_i hpasses
    rw [if_pos hpasses] at habove
    exact mem_acknowledge (by rw [hdeadlines]; exact hmem) hlive habove
  · exact hmem

theorem Follows.data (h : Follows writer ms s w)
    (hdom : InDomain writer s (.data header outcome now sent))
    (hans : Answerable w (.data header outcome now sent)) :
    ∃ ack after w', s.dataReceived 0 (.data header outcome now sent) = .ok (ack, after) ∧
      Follows writer (ms ++ [.data header outcome now sent]) after w' ∧
      Truthful (ms ++ [.data header outcome now sent]) ack ∧
      Answers ms (.data header outcome now sent) ack := by
  obtain ⟨hwithin, hclosing⟩ := hans
  obtain ⟨w₁, hactivity, htracks, hid, hdeadlines⟩ := h.record h.writers hdom
  have hpub : w.writerId = header.publicationId := h.id.trans hdom.2.1.symm
  obtain ⟨after, heq, hafter⟩ := dataReceived_data h.writers hpub hactivity hid
    htracks.quiet outcome now sent
  obtain ⟨hid', hseqs, hseen, hsamples, hcoherent⟩ := answer_frame w₁ header outcome now sent
  have htrue : ∀ ack, (answer w₁ header outcome now sent).1 = some ack →
      ack = header.sequence ∧ Reached (ms ++ [.data header outcome now sent]) header.sequence := by
    intro ack hack
    obtain ⟨hpasses, rfl, e, he, hdue⟩ := answer_eq_some.mp hack
    obtain ⟨hlive, hreached⟩ := htracks.due_iff.mp hdue
    rw [hdeadlines] at he
    rw [h.reached_concat] at hreached ⊢
    exact ⟨rfl, hwithin hpasses e he hlive hreached⟩
  refine ⟨_, after, (answer w₁ header outcome now sent).2, heq, ?_, ?_, ?_⟩
  · refine { htracks.congr hseqs hseen hsamples hcoherent with
      pending := ?_, writers := hafter, id := hid'.trans (hid.trans h.id) }
    intro r hr hlive hunreached
    rw [requests_concat] at hr
    rw [times_concat] at hlive
    obtain ⟨later, hlater, hmem⟩ := h.pending r (by simpa [request] using hr)
      (fun t ht => hlive t (List.mem_append_left _ ht)) (fun hold => hunreached hold.mono)
    have hnow : now ≤ r.2 := hlive now (by simp [time])
    refine ⟨later, hlater, mem_answer (by rw [hdeadlines]; exact hmem) (by simp only; omega) ?_⟩
    intro hack
    -- An acknowledged number at or above the request would have reached it.
    by_contra hle
    exact hunreached ((htrue _ hack).2.le (by simpa using hle))
  · intro ack hack n hpos hn
    obtain ⟨rfl, hreached⟩ := htrue ack hack
    exact hreached.2 n hpos hn
  · intro r hr hlive hunreached hreached
    rw [times_concat] at hlive
    have hnow : now ≤ r.2 := hlive now (by simp [time])
    obtain ⟨later, hlater, hmem⟩ := h.pending r hr
      (fun t ht => hlive t (List.mem_append_left _ ht)) hunreached
    obtain ⟨hpasses, hle⟩ := hclosing _ hmem (by simp only; omega)
      (fun hold => hunreached (h.reached_iff.mpr hold)) (h.reached_concat.mp hreached)
    refine ⟨header.sequence, answer_eq_some.mpr ⟨hpasses, rfl, (r.1, later), ?_, ?_⟩, hle⟩
    · rw [hdeadlines]
      exact hmem
    · exact htracks.due_iff.mpr ⟨by simp only; omega, hreached⟩

theorem reached_skip (hskip : number m = none) : Reached (ms ++ [m]) d ↔ Reached ms d := by
  rw [Reached, Reached, received_concat, hskip]
  simp

theorem Tracks.skip (h : Tracks ms w) (hskip : number m = none) : Tracks (ms ++ [m]) w := by
  have hreceived : received (ms ++ [m]) = received ms := by
    rw [received_concat, hskip]
    simp
  refine { h with covers := ?_, positive := ?_, first := ?_, seen := ?_ } <;> rw [hreceived]
  · exact h.covers
  · exact h.positive
  · exact h.first
  · exact h.seen

theorem Follows.requestAck {ack now : Int} {delay : Duration_t} (h : Follows writer ms s w)
    (hdom : InDomain writer s (.requestAck header ack delay now sent))
    (hans : Answerable w (.requestAck header ack delay now sent)) :
    ∃ sample after w', s.dataReceived 0 (.requestAck header ack delay now sent) = .ok (sample, after) ∧
      Follows writer (ms ++ [.requestAck header ack delay now sent]) after w' ∧
      Truthful (ms ++ [.requestAck header ack delay now sent]) sample ∧
      Answers ms (.requestAck header ack delay now sent) sample := by
  have hpub : w.writerId = header.publicationId := h.id.trans hdom.2.symm
  obtain ⟨after, heq, hafter⟩ :=
    dataReceived_requestAck ack now delay sent h.writers hpub hdom.1
  generalize hdeadline : durationToAbsoluteTimeValue delay now = deadline at *
  obtain ⟨entries, hw₁⟩ := ackDeadline_frame w ack deadline
  obtain ⟨entries', hw₂⟩ := acknowledge_frame (w.ackDeadline ack deadline) ack now sent
  have htracks := h.skip (m := .requestAck header ack delay now sent) rfl
  have htrue : ∀ a, ((w.ackDeadline ack deadline).acknowledge ack now sent).1 = some a →
      a = ack ∧ Reached ms ack := by
    intro a ha
    obtain ⟨rfl, e, he, hdue⟩ := acknowledge_eq_some.mp ha
    have hseqs : (w.ackDeadline a deadline).ackSequence = w.ackSequence := by rw [hw₁]
    rw [hseqs] at hdue
    obtain ⟨hlive, hreached⟩ := h.due_iff.mp hdue
    refine ⟨rfl, ?_⟩
    rcases mem_ackDeadline he with he | rfl
    · rcases hans with hwithin | ⟨hnone, -⟩
      · exact h.reached_iff.mpr hwithin
      · exact absurd (h.reached_iff.mp hreached) (hnone e he hlive)
    · exact hreached
  refine ⟨_, after, ((w.ackDeadline ack deadline).acknowledge ack now sent).2, heq, ?_, ?_, ?_⟩
  · have hframe : Tracks (ms ++ [.requestAck header ack delay now sent])
        ((w.ackDeadline ack deadline).acknowledge ack now sent).2 := by
      rw [hw₂, hw₁]
      exact htracks.congr rfl rfl rfl rfl
    have hid : ((w.ackDeadline ack deadline).acknowledge ack now sent).2.writerId = writer := by
      rw [hw₂, hw₁]
      exact h.id
    refine { hframe with pending := ?_, writers := hafter, id := hid }
    intro r hr hlive hunreached
    rw [reached_skip rfl] at hunreached
    rw [requests_concat] at hr
    rw [times_concat] at hlive
    have hnow : now ≤ r.2 := hlive now (by simp [time])
    -- The request is pending once it is recorded, and it is not cleared.
    obtain ⟨later, hlater, hmem⟩ : ∃ later, r.2 ≤ later ∧
        (r.1, later) ∈ (w.ackDeadline ack deadline).ackDeadlines := by
      rcases List.mem_append.mp hr with hr | hr
      · obtain ⟨later, hlater, hmem⟩ := h.pending r hr
          (fun t ht => hlive t (List.mem_append_left _ ht)) hunreached
        obtain ⟨later', hlater', hmem'⟩ := ackDeadline_keeps ack deadline hmem
        exact ⟨later', by simp only at hlater'; omega, hmem'⟩
      · obtain rfl : r = (ack, deadline) := by simpa [request, hdeadline] using hr
        rcases hans with hwithin | ⟨-, hfirst⟩
        · exact absurd (h.reached_iff.mpr hwithin) hunreached
        · exact ackDeadline_records deadline hfirst
    refine ⟨later, hlater, mem_acknowledge hmem (by simp only; omega) ?_⟩
    intro hack
    by_contra hle
    exact hunreached ((htrue _ hack).2.le (by simpa using hle))
  · intro a ha n hpos hn
    obtain ⟨rfl, hreached⟩ := htrue a ha
    exact ((reached_skip rfl).mpr hreached).2 n hpos hn
  · intro r hr hlive hunreached hreached
    exact absurd ((reached_skip rfl).mp hreached) hunreached

theorem Follows.step (h : Follows writer ms s w) (hdom : InDomain writer s m)
    (hans : Answerable w m) :
    ∃ ack after w', s.dataReceived 0 m = .ok (ack, after) ∧ Follows writer (ms ++ [m]) after w' ∧
      Truthful (ms ++ [m]) ack ∧ Answers ms m ack := by
  cases m with
  | data header outcome now sent => exact h.data hdom hans
  | requestAck header ack delay now sent => exact h.requestAck hdom hans
  | endCoherentChanges header control => exact hdom.elim

theorem start_follows (scope : AccessScope) (coherentAccess : Bool) (writer : Nat) :
    Follows writer [] (start scope coherentAccess writer) (.create writer) where
  wellFormed := wellFormed_nil
  covers n := by simp [WriterInfo.create, received]
  positive := by simp [received]
  first := by simp [received]
  seen := by simp [WriterInfo.create, received]
  quiet := rfl
  coherent := wellFormed_nil
  pending := by simp [requests]
  writers := rfl
  id := rfl

end

/-- In every run whose messages meet the condition, and for every further message that
does, the reader acknowledges only what it received and answers each request in time. -/
theorem acks_truthful_and_timely (scope : AccessScope) (coherentAccess : Bool) (writer : Nat)
    {ms : List Message} {s : Subscriber}
    (run : Run (start scope coherentAccess writer) (ReceivesAnswerable writer) ms s)
    {m : Message} (hdom : InDomain writer s m) (hans : ∀ w ∈ (s.readers 0).writers, Answerable w m) :
    ∃ ack after, s.dataReceived 0 m = .ok (ack, after) ∧ Truthful (ms ++ [m]) ack ∧
      Answers ms m ack := by
  have hfollows : ∃ w, Follows writer ms s w := by
    apply run.history fun ms s => ∃ w, Follows writer ms s w
    · exact ⟨_, start_follows scope coherentAccess writer⟩
    · rintro ms s m after ⟨w, h⟩ ⟨⟨hdom, ack, heq⟩, hans⟩
      obtain ⟨ack', after', w', heq', h', -⟩ := h.step hdom (hans w (by simp [h.writers]))
      rw [heq, Except.ok.injEq, Prod.mk.injEq] at heq'
      rw [heq'.2]
      exact ⟨w', h'⟩
  obtain ⟨w, h⟩ := hfollows
  obtain ⟨ack, after, -, heq, -, htrue, hanswers⟩ := h.step hdom (hans w (by simp [h.writers]))
  exact ⟨ack, after, heq, htrue, hanswers⟩

/-- A sample of writer 7 that is stored, and a request that may be answered for a minute. -/
def sample (n : Int) : Message :=
  .data ⟨.sampleData, false, false, false, n, 7, guidUnknown⟩ .stored 0 true

def asks (n : Int) : Message :=
  .requestAck ⟨.requestAck, false, false, false, 0, 7, guidUnknown⟩ n ⟨60, 0⟩ 0 true

/-- A topic subscriber that has the writer 7, after some messages. -/
def delivered (ms : List Message) : Subscriber :=
  ms.foldl (fun s m => s.deliver 0 m) (start .topicPresentation true 7)

theorem receives_delivered (ms : List Message) (m : Message)
    (hdom : InDomain 7 (delivered ms) m)
    (hok : ((delivered ms).dataReceived 0 m).toOption.isSome) :
    Receives 7 (delivered ms) m (delivered (ms ++ [m])) := by
  have hconcat : delivered (ms ++ [m]) = (delivered ms).deliver 0 m := List.foldl_concat ..
  rw [hconcat]
  exact ⟨hdom, Subscriber.dataReceived_deliver hok⟩

theorem sample_inDomain {n : Int} (s : Subscriber) (hpos : 1 ≤ n) (hmax : n ≤ maxValue)
    (hfirst : ∀ w ∈ (s.readers 0).writers, w.seenData = false → n = 1) :
    InDomain 7 s (sample n) :=
  ⟨.inl rfl, rfl, rfl, hpos, hmax, hfirst⟩

/-- The second sample answers the request for it. -/
theorem acks_truthful_and_timely_second :
    Run (start .topicPresentation true 7) (ReceivesAnswerable 7) [sample 1, asks 2]
        (delivered [sample 1, asks 2]) ∧
      ((delivered [sample 1, asks 2]).dataReceived 0 (sample 2)).toOption.map Prod.fst =
        some (some 2) ∧
      ∃ ack after, (delivered [sample 1, asks 2]).dataReceived 0 (sample 2) = .ok (ack, after) ∧
        Truthful ([sample 1, asks 2] ++ [sample 2]) ack ∧ Answers [sample 1, asks 2] (sample 2) ack := by
  have h₁ : ReceivesAnswerable 7 (delivered []) (sample 1) (delivered [sample 1]) := by
    refine ⟨receives_delivered [] (sample 1) ?_ (by decide), ?_⟩
    · exact sample_inDomain _ (by decide) (by decide) (fun _ _ _ => rfl)
    · intro w hw
      obtain rfl : w = .create 7 := List.mem_singleton.mp hw
      exact ⟨by simp [WriterInfo.create], by simp [WriterInfo.create]⟩
  have h₂ : ReceivesAnswerable 7 (delivered [sample 1]) (asks 2) (delivered [sample 1, asks 2]) := by
    refine ⟨receives_delivered [sample 1] (asks 2) ⟨rfl, rfl⟩ (by decide), ?_⟩
    intro w hw
    obtain rfl : w = { WriterInfo.create 7 with seenData := true, ackSequence := [(1, 1)] } :=
      List.mem_singleton.mp hw
    exact .inr ⟨by simp [WriterInfo.create], by simp [WriterInfo.create]⟩
  have run := (Run.start.next h₁).next h₂
  have hwriter : ∀ w ∈ ((delivered [sample 1, asks 2]).readers 0).writers,
      w = { WriterInfo.create 7 with
        seenData := true, ackSequence := [(1, 1)], ackDeadlines := [(2, 60000000)] } :=
    fun w hw => List.mem_singleton.mp hw
  refine ⟨run, by decide, acks_truthful_and_timely .topicPresentation true 7 run ?_ ?_⟩
  · apply sample_inDomain _ (by decide) (by decide)
    intro w hw hseen
    rw [hwriter w hw] at hseen
    cases hseen
  · intro w hw
    rw [hwriter w hw]
    have hclosed : Unbroken [(1, 1)] (some 2) 2 := by
      refine ⟨.inr (by simp), ?_⟩
      intro n hpos hn
      rcases Int.lt_or_eq_of_le hn with hlt | rfl
      · exact .inl ⟨(1, 1), by simp, by simpa using hpos, by simp only; omega⟩
      · exact .inr rfl
    refine ⟨fun _ _ _ _ _ => hclosed, ?_⟩
    intro e he _ _ _
    obtain rfl : e = (2, 60000000) := List.mem_singleton.mp he
    exact ⟨rfl, by decide⟩

/-- Number 3 is requested. Number 2, which fills the gap, acknowledges only itself, and
number 5 is acknowledged before number 4. -/
theorem lost_sample_acknowledged :
    ¬ ∀ (scope : AccessScope) (coherentAccess : Bool) (writer : Nat) (ms : List Message)
      (s : Subscriber) (m : Message) (ack : Option Int) (after : Subscriber),
      Run (start scope coherentAccess writer) (Receives writer) ms s → InDomain writer s m →
      s.dataReceived 0 m = .ok (ack, after) → Truthful (ms ++ [m]) ack ∧ Answers ms m ack := by
  intro claim
  have hseen : ∀ ms ∈ [[sample 1, asks 3], [sample 1, asks 3, sample 3],
      [sample 1, asks 3, sample 3, sample 2]], ∀ w ∈ ((delivered ms).readers 0).writers,
      w.seenData = true := by
    decide
  have hdom : ∀ ms ∈ [[sample 1, asks 3], [sample 1, asks 3, sample 3],
      [sample 1, asks 3, sample 3, sample 2]], ∀ n : Int, 1 ≤ n → n ≤ maxValue →
      InDomain 7 (delivered ms) (sample n) := by
    intro ms hms n hpos hmax
    apply sample_inDomain _ hpos hmax
    intro w hw hunseen
    rw [hseen ms hms w hw] at hunseen
    cases hunseen
  have h₁ := receives_delivered [] (sample 1)
    (sample_inDomain _ (by decide) (by decide) (fun _ _ _ => rfl)) (by decide)
  have h₂ := receives_delivered [sample 1] (asks 3) ⟨rfl, rfl⟩ (by decide)
  have h₃ := receives_delivered [sample 1, asks 3] (sample 3)
    (hdom _ (by simp) 3 (by decide) (by decide)) (by decide)
  have h₄ := receives_delivered [sample 1, asks 3, sample 3] (sample 2)
    (hdom _ (by simp) 2 (by decide) (by decide)) (by decide)
  obtain ⟨result, heq, hack⟩ : ∃ result,
      (delivered [sample 1, asks 3, sample 3, sample 2]).dataReceived 0 (sample 5) = .ok result ∧
      result.1 = some 5 := ⟨_, rfl, rfl⟩
  obtain ⟨htrue, -⟩ := claim .topicPresentation true 7 _ _ (sample 5) result.1 result.2
    ((((Run.start.next h₁).next h₂).next h₃).next h₄)
    (hdom _ (by simp) 5 (by decide) (by decide)) heq
  have hlost := htrue 5 hack 4 (by decide) (by decide)
  revert hlost
  decide

end OpenDDS.Guarantees.TruthfulAcks
