import OpenDDS.Library.Run
import OpenDDS.Source.SampleReception

/-!
# Coherent sets of one writer

The samples of a coherent set of a reader with topic presentation become readable when
the reader takes the set for complete. It compares a set of sequence numbers with the last
number of the set alone, and that set starts from the first sample that is counted as if
everything below had been received: when the first samples of the coherent set are lost,
the rest of it becomes readable.
-/
namespace OpenDDS.Guarantees.CoherentSets
open Library Library.RangeList Source Source.SequenceNumber Source.DisjointSequence
open Source.WriterInfo Source.SampleReception

/-- The samples of a coherent set, by the numbers its end carries. -/
structure CoherentSet where
  writer : Nat
  numSamples : Nat
  lastSample : Int
  positive : numSamples ≤ lastSample
  bounded : lastSample ≤ maxValue

def CoherentSet.Has (set : CoherentSet) (n : Int) : Prop :=
  set.lastSample - set.numSamples < n ∧ n ≤ set.lastSample

instance (set : CoherentSet) (n : Int) : Decidable (set.Has n) :=
  inferInstanceAs (Decidable (_ ∧ _))

def CoherentSet.info (set : CoherentSet) : WriterCoherentSample := ⟨set.numSamples, set.lastSample⟩

theorem CoherentSet.one_le {set : CoherentSet} {n : Int} (h : set.Has n) : 1 ≤ n := by
  have hpos := set.positive
  obtain ⟨hlo, -⟩ := h
  omega

section

/-- A reader with topic presentation that knows nothing of the set yet. -/
structure Ready (set : CoherentSet) (s : Subscriber) : Prop where
  scope : s.accessScope = .topicPresentation
  access : s.coherentAccess = true
  writer : ∃ w, (s.readers 0).writers = [w] ∧ w.writerId = set.writer ∧ w.resetCoherentInfo = w ∧
    WellFormed w.ackSequence
  samples : ∀ e ∈ (s.readers 0).samples, e.pub = set.writer → ¬ set.Has e.sequence

/-- A sample of the set, or its end. -/
def InDomain (set : CoherentSet) : Message → Prop
  | .data header _ _ _ => header.messageId = .sampleData ∧ header.coherentChange = true ∧
      header.groupCoherent = false ∧ header.publisherId = guidUnknown ∧
      header.publicationId = set.writer ∧ set.Has header.sequence
  | .endCoherentChanges header control => header.messageId = .endCoherentChanges ∧
      header.publicationId = set.writer ∧ control = ⟨set.info, false, guidUnknown⟩
  | .requestAck _ _ _ _ _ => False

abbrev Reception := List Message × Subscriber

def Receives (set : CoherentSet) (x : Reception) (m : Message) (y : Reception) : Prop :=
  InDomain set m ∧ y.1 = x.1 ++ [m] ∧ ∃ ack, x.2.dataReceived 0 m = .ok (ack, y.2)

/-- If a sample of the set is readable, all of the set was received. -/
def AllOrNothing (set : CoherentSet) (ms : List Message) (samples : List Element) : Prop :=
  (∃ e ∈ samples, e.pub = set.writer ∧ set.Has e.sequence ∧ e.coherentChange = false) →
    ∀ n, set.Has n → n ∈ received ms

/-- The condition: a sample that is received while none is counted finds every earlier
sample of the set received, and the end finds a sample recorded. -/
def Based (set : CoherentSet) (x : Reception) : Message → Prop
  | .data header _ _ _ => ∀ w ∈ (x.2.readers 0).writers, w.coherentSamples = 0 →
      ∀ n, set.Has n → n < header.sequence → n ∈ received x.1
  | .endCoherentChanges _ _ => ∀ w ∈ (x.2.readers 0).writers, w.coherentSampleSequence ≠ []
  | .requestAck _ _ _ _ _ => True

def ReceivesBased (set : CoherentSet) (x : Reception) (m : Message) (y : Reception) : Prop :=
  Receives set x m y ∧ Based set x m

end

variable {set : CoherentSet} {ms : List Message} {m : Message} {s : Subscriber} {w w' : WriterInfo}
  {header : SampleHeader}

structure Collects (set : CoherentSet) (ms : List Message) (w : WriterInfo) : Prop where
  id : w.writerId = set.writer
  topic : w.groupCoherent = false
  publisher : w.publisherId = guidUnknown
  info : w.writerCoherentSamples.numSamples = 0 ∨ w.writerCoherentSamples = set.info
  acks : WellFormed w.ackSequence
  wellFormed : WellFormed w.coherentSampleSequence
  recorded : ∀ n, Covers w.coherentSampleSequence n →
    n ≤ set.lastSample ∧ (set.Has n → n ∈ received ms)
  based : w.coherentSampleSequence ≠ [] → Covers w.coherentSampleSequence 1
  counted : w.coherentSamples ≠ 0 → w.coherentSampleSequence ≠ []

structure Holds (set : CoherentSet) (ms : List Message) (s : Subscriber) (w : WriterInfo) : Prop where
  scope : s.accessScope = .topicPresentation
  access : s.coherentAccess = true
  writers : (s.readers 0).writers = [w]
  collects : Collects set ms w
  allOrNothing : AllOrNothing set ms (s.readers 0).samples

theorem Collects.reset (h : Collects set ms w) : Collects set ms w.resetCoherentInfo where
  id := h.id
  topic := rfl
  publisher := rfl
  info := Or.inl rfl
  acks := h.acks
  wellFormed := wellFormed_nil
  recorded n hn := absurd hn (covers_nil n)
  based hne := absurd rfl hne
  counted hne := absurd rfl hne

theorem Collects.complete (h : Collects set ms w)
    (hstate : w.coherentChangeReceived = .ok .completed) : ∀ n, set.Has n → n ∈ received ms := by
  unfold coherentChangeReceived at hstate
  split at hstate
  · cases hstate
  rename_i hnum
  split at hstate
  · cases hstate
  rename_i hempty
  split at hstate
  · rename_i hdone
    simp only [Bool.and_eq_true, Bool.not_eq_true', decide_eq_true_eq] at hdone
    obtain ⟨hjoint, hhigh⟩ := hdone
    have hne : w.coherentSampleSequence ≠ [] := by simpa [DisjointSequence.empty] using hempty
    have hinfo : w.writerCoherentSamples = set.info := h.info.resolve_left hnum
    have hlow := low_le h.wellFormed.canonical (h.based hne)
    have hsingle := eq_singleton_of_not_disjoint hne hjoint
    have hlast : cumulativeAck w.coherentSampleSequence = set.lastSample := by
      have hend : high w.coherentSampleSequence = cumulativeAck w.coherentSampleSequence := by
        rw [hsingle]
        rfl
      rw [← hend, hhigh, hinfo]
      rfl
    intro n hn
    have hone := CoherentSet.one_le hn
    have hle := hn.2
    exact (h.recorded n (covers_of_le_cumulativeAck hne (by omega) (by omega))).2 hn
  · split at hstate
    · cases hstate
    · cases hstate

theorem Collects.not_rejected (h : Collects set ms w) :
    w.coherentChangeReceived ≠ .ok .rejected := by
  intro hstate
  unfold coherentChangeReceived at hstate
  split at hstate
  · cases hstate
  rename_i hnum
  split at hstate
  · cases hstate
  rename_i hempty
  have hne : w.coherentSampleSequence ≠ [] := by simpa [DisjointSequence.empty] using hempty
  split at hstate
  · cases hstate
  · split at hstate
    · rename_i hbeyond
      have hle := (h.recorded _ (covers_high h.wellFormed.canonical hne)).1
      rw [h.info.resolve_left hnum] at hbeyond
      simp only [CoherentSet.info] at hbeyond
      omega
    · cases hstate

theorem coherentChangeReceived_ok (hne : w.coherentSampleSequence ≠ []) :
    ∃ state, w.coherentChangeReceived = .ok state := by
  have hempty : DisjointSequence.empty w.coherentSampleSequence = false := by
    simpa [DisjointSequence.empty] using hne
  unfold coherentChangeReceived
  rw [hempty]
  split
  · exact ⟨_, rfl⟩
  · simp only [Bool.false_eq_true, if_false]
    split
    · exact ⟨_, rfl⟩
    · split
      · exact ⟨_, rfl⟩
      · exact ⟨_, rfl⟩

theorem Holds.verify (h : Holds set ms s w) (hne : w.coherentSampleSequence ≠ []) :
    ∃ after w', s.verifyCoherentChangesCompletion 0 w = .ok after ∧ Holds set ms after w' := by
  obtain ⟨state, hstate⟩ := coherentChangeReceived_ok hne
  have hscope : ¬ (s.accessScope = .instancePresentation ∨ (!s.coherentAccess) = true) := by
    simp [h.scope, h.access]
  unfold Subscriber.verifyCoherentChangesCompletion
  simp only [hscope, if_false, hstate, h.collects.topic, Bool.false_eq_true]
  cases state with
  | notCompletedYet => exact ⟨s, w, rfl, h⟩
  | rejected => exact absurd hstate h.collects.not_rejected
  | completed =>
    refine ⟨_, w.resetCoherentInfo, rfl, h.scope, h.access, ?_, h.collects.reset, ?_⟩
    · have hwriters : ((s.readers 0).acceptCoherent w.writerId w.publisherId).writers = [w] :=
        h.writers
      have hid : w.resetCoherentInfo.writerId = w.writerId := rfl
      simp only [Subscriber.setReader, Function.update_self]
      rw [setWriter_single hwriters hid]
    · exact fun _ => h.collects.complete hstate

theorem AllOrNothing.mono {samples : List Element} (h : AllOrNothing set ms samples) :
    AllOrNothing set (ms ++ [m]) samples := by
  intro hreadable n hn
  rw [received_concat]
  exact List.mem_append_left _ (h hreadable n hn)

theorem Collects.mono (h : Collects set ms w) : Collects set (ms ++ [m]) w := by
  refine { h with recorded := ?_ }
  intro n hn
  refine ⟨(h.recorded n hn).1, fun hhas => ?_⟩
  rw [received_concat]
  exact List.mem_append_left _ ((h.recorded n hn).2 hhas)

variable {outcome : Outcome} {sent : Bool}

theorem Collects.record (h : Collects set ms w) {now : Int}
    (hdom : InDomain set (.data header outcome now sent))
    (hbased : w.coherentSamples = 0 → ∀ n, set.Has n → n < header.sequence → n ∈ received ms) :
    ∃ w', w.writerActivity header = .ok w' ∧ w'.writerId = w.writerId ∧
      Collects set (ms ++ [.data header outcome now sent]) w' ∧ w'.coherentSampleSequence ≠ [] := by
  obtain ⟨hmessage, hcoherent, -, -, -, hhas⟩ := hdom
  have hpos := CoherentSet.one_le hhas
  have hmax : header.sequence ≤ maxValue := hhas.2.trans set.bounded
  obtain ⟨acks, hrecord, hacks, -⟩ := recordSequence_spec h.acks hpos hmax
  obtain ⟨seqs, hrecord', hwf, hcov⟩ := recordCoherent_spec
    (w := { w with seenData := true, ackSequence := acks }) h.wellFormed hpos hmax
  have hreceived : received (ms ++ [.data header outcome now sent]) =
      received ms ++ [header.sequence] := received_concat ..
  have hself : Covers seqs header.sequence := by
    rw [hcov]
    split
    · exact ⟨hpos, le_rfl⟩
    · exact .inr rfl
  refine ⟨{ w with seenData := true, ackSequence := acks, coherentSampleSequence := seqs }, ?_, rfl,
    ?_, ne_nil_of_covers hself⟩
  · simp [WriterInfo.writerActivity, hmessage, numbered, hrecord, hcoherent, hrecord']
  · refine { h with
      acks := hacks, wellFormed := hwf, recorded := ?_, based := ?_,
      counted := fun _ => ne_nil_of_covers hself }
    · intro n hn
      rw [hreceived]
      rw [hcov] at hn
      split at hn
      · rename_i hzero
        refine ⟨hn.2.trans hhas.2, fun hset => ?_⟩
        rcases Int.lt_or_eq_of_le hn.2 with hlt | rfl
        · exact List.mem_append_left _ (hbased hzero n hset hlt)
        · simp
      · rcases hn with hn | rfl
        · refine ⟨(h.recorded n hn).1, fun hset => ?_⟩
          exact List.mem_append_left _ ((h.recorded n hn).2 hset)
        · exact ⟨hhas.2, fun _ => by simp⟩
    · intro _
      rw [hcov]
      split
      · exact ⟨le_rfl, hpos⟩
      · rename_i hcount
        exact .inl (h.based (h.counted hcount))

theorem Collects.count (h : Collects set ms w) (now : Int) (sent : Bool)
    (hne : w.coherentSampleSequence ≠ []) (hgroup : header.groupCoherent = false)
    (hpublisher : header.publisherId = guidUnknown) :
    Collects set ms ((w.countCoherent header).acknowledge header.sequence now sent).2 ∧
      ((w.countCoherent header).acknowledge header.sequence now sent).2.coherentSampleSequence =
        w.coherentSampleSequence := by
  obtain ⟨entries, hframe⟩ := acknowledge_frame (w.countCoherent header) header.sequence now sent
  rw [hframe]
  unfold countCoherent
  split
  · exact ⟨{ h with topic := hgroup, publisher := hpublisher, counted := fun _ => hne }, rfl⟩
  · exact ⟨{ h with }, rfl⟩

theorem Holds.accept {now : Int} (h : Holds set ms s w) (hne : w.coherentSampleSequence ≠ [])
    (hdom : InDomain set (.data header outcome now sent)) :
    ∃ ack after w', s.acceptData 0 header now sent = .ok (ack, after) ∧ Holds set ms after w' := by
  obtain ⟨-, hcoherent, hgroup, hpublisher, hpub, -⟩ := hdom
  obtain ⟨hcollects, hseqs⟩ := h.collects.count now sent hne hgroup hpublisher
  unfold Subscriber.acceptData
  rw [findWriter_single h.writers (h.collects.id.trans hpub.symm)]
  simp only [hcoherent, if_true]
  generalize (w.countCoherent header).acknowledge header.sequence now sent = acked at *
  have hid : acked.2.writerId = w.writerId := hcollects.id.trans h.collects.id.symm
  have hset : Holds set ms (s.setReader 0 ((s.readers 0).setWriter acked.2)) acked.2 := by
    refine ⟨h.scope, h.access, ?_, hcollects, ?_⟩
    · simp only [Subscriber.setReader, Function.update_self, setWriter_single h.writers hid]
    · exact h.allOrNothing
  obtain ⟨after, w', hverify, hafter⟩ := hset.verify (by rw [hseqs]; exact hne)
  exact ⟨acked.1, after, w', by rw [hverify]; rfl, hafter⟩

theorem Holds.data {now : Int} (h : Holds set ms s w)
    (hdom : InDomain set (.data header outcome now sent))
    (hbased : Based set (ms, s) (.data header outcome now sent)) :
    ∃ ack after w', s.dataReceived 0 (.data header outcome now sent) = .ok (ack, after) ∧
      Holds set (ms ++ [.data header outcome now sent]) after w' := by
  obtain ⟨w₁, hactivity, hid, hcollects, hne⟩ :=
    h.collects.record hdom (hbased w (by simp [h.writers]))
  have hpub : w.writerId = header.publicationId := h.collects.id.trans hdom.2.2.2.2.1.symm
  have hs₁ := writerActivity_single h.writers hpub hactivity hid
  have h₁ : Holds set (ms ++ [.data header outcome now sent])
      (s.setReader 0 { s.readers 0 with writers := [w₁] }) w₁ := by
    refine ⟨h.scope, h.access, ?_, hcollects, ?_⟩
    · simp [Subscriber.setReader]
    · exact h.allOrNothing.mono
  generalize s.setReader 0 { s.readers 0 with writers := [w₁] } = s₁ at hs₁ h₁
  have h₂ : Holds set (ms ++ [.data header outcome now sent]) (s₁.readerWithData 0) w₁ := by
    unfold Subscriber.readerWithData
    split
    · exact h₁
    · exact ⟨h₁.scope, h₁.access, h₁.writers, h₁.collects, h₁.allOrNothing⟩
  simp only [Subscriber.dataReceived, hs₁]
  cases outcome with
  | expired => exact ⟨none, s₁, w₁, rfl, h₁⟩
  | filtered => exact ⟨none, _, w₁, rfl, h₂⟩
  | refused => exact h₂.accept hne hdom
  | stored =>
    have h₃ : Holds set (ms ++ [.data header .stored now sent])
        ((s₁.readerWithData 0).store 0 header) w₁ := by
      refine ⟨h₂.scope, h₂.access, ?_, hcollects, ?_⟩
      · exact h₂.writers
      · rintro ⟨e, he, hreadable⟩
        apply h₂.allOrNothing
        rcases List.mem_append.mp he with he | he
        · exact ⟨e, he, hreadable⟩
        · -- The new sample is not readable yet.
          rw [List.mem_singleton.mp he] at hreadable
          exact absurd (hdom.2.1.symm.trans hreadable.2.2) (by simp)
    exact h₃.accept hne hdom

theorem Holds.endChanges {control : CoherentChangeControl} (h : Holds set ms s w)
    (hdom : InDomain set (.endCoherentChanges header control))
    (hbased : Based set (ms, s) (.endCoherentChanges header control)) :
    ∃ ack after w', s.dataReceived 0 (.endCoherentChanges header control) = .ok (ack, after) ∧
      Holds set (ms ++ [.endCoherentChanges header control]) after w' := by
  obtain ⟨hmessage, hpub, rfl⟩ := hdom
  have hne : w.coherentSampleSequence ≠ [] := hbased w (by simp [h.writers])
  have hactivity : w.writerActivity header = .ok w := by
    simp [WriterInfo.writerActivity, hmessage, numbered]
  have hs₁ := writerActivity_single h.writers (h.collects.id.trans hpub.symm) hactivity rfl
  simp only [Subscriber.dataReceived, hs₁]
  generalize hgen : s.setReader 0 { s.readers 0 with writers := [w] } = s₁
  have hwriters : (s₁.readers 0).writers = [w] := by
    rw [← hgen]
    simp [Subscriber.setReader]
  rw [findWriter_single hwriters (h.collects.id.trans hpub.symm)]
  simp only
  have hset : Holds set (ms ++ [.endCoherentChanges header ⟨set.info, false, guidUnknown⟩])
      (s₁.setReader 0 ((s₁.readers 0).setWriter (w.setGroupInfo ⟨set.info, false, guidUnknown⟩)))
      (w.setGroupInfo ⟨set.info, false, guidUnknown⟩) := by
    have hid : (w.setGroupInfo ⟨set.info, false, guidUnknown⟩).writerId = w.writerId := rfl
    constructor
    · rw [← hgen]
      exact h.scope
    · rw [← hgen]
      exact h.access
    · simp only [Subscriber.setReader, Function.update_self]
      rw [setWriter_single hwriters hid]
    · exact { h.collects.mono with info := Or.inr rfl }
    · have hsamples : (s₁.readers 0).samples = (s.readers 0).samples := by
        rw [← hgen]
        simp [Subscriber.setReader]
      simp only [Subscriber.setReader, Function.update_self, Reader.setWriter, hsamples]
      exact h.allOrNothing.mono
  obtain ⟨after, w', hverify, hafter⟩ := hset.verify hne
  exact ⟨none, after, w', by rw [hverify]; rfl, hafter⟩

theorem Holds.step (h : Holds set ms s w) (hdom : InDomain set m) (hbased : Based set (ms, s) m) :
    ∃ ack after w', s.dataReceived 0 m = .ok (ack, after) ∧ Holds set (ms ++ [m]) after w' := by
  cases m with
  | data header outcome now sent => exact h.data hdom hbased
  | endCoherentChanges header control => exact h.endChanges hdom hbased
  | requestAck header ack delay now sent => exact hdom.elim

theorem Ready.holds (h : Ready set s) : ∃ w, Holds set [] s w := by
  obtain ⟨w, hwriters, hid, hreset, hacks⟩ := h.writer
  refine ⟨w, h.scope, h.access, hwriters, ?_, ?_⟩
  · have hcollects : Collects set [] w.resetCoherentInfo := by
      constructor
      · exact hid
      · rfl
      · rfl
      · exact .inl rfl
      · exact hacks
      · exact wellFormed_nil
      · exact fun n hn => absurd hn (covers_nil n)
      · exact fun hne => absurd rfl hne
      · exact fun hne => absurd rfl hne
    rwa [hreset] at hcollects
  · rintro ⟨e, he, hpub, hhas, -⟩
    exact absurd hhas (h.samples e he hpub)

/-- In every run whose messages meet the condition, what is readable of the set was received
in whole, and so it is after every further message that does. -/
theorem coherent_set_all_or_nothing (set : CoherentSet) {start : Subscriber}
    (hready : Ready set start) {ms : List Message} {x : Reception}
    (run : Run ([], start) (ReceivesBased set) ms x) :
    AllOrNothing set x.1 (x.2.readers 0).samples ∧
      ∀ m, InDomain set m → Based set x m → ∃ ack after, x.2.dataReceived 0 m = .ok (ack, after) ∧
        AllOrNothing set (x.1 ++ [m]) (after.readers 0).samples := by
  have hholds : ∃ w, Holds set x.1 x.2 w := by
    apply run.invariant fun x => ∃ w, Holds set x.1 x.2 w
    · exact hready.holds
    · rintro x m y ⟨w, h⟩ ⟨⟨hdom, hlog, ack, heq⟩, hbased⟩
      obtain ⟨ack', after, w', heq', h'⟩ := h.step hdom hbased
      rw [heq, Except.ok.injEq, Prod.mk.injEq] at heq'
      rw [hlog, heq'.2]
      exact ⟨w', h'⟩
  obtain ⟨w, h⟩ := hholds
  refine ⟨h.allOrNothing, ?_⟩
  intro m hdom hbased
  obtain ⟨ack, after, w', heq, h'⟩ := h.step hdom hbased
  exact ⟨ack, after, heq, h'.allOrNothing⟩

/-- The set of the samples 1 and 2 of writer 7, the reader before it, and its messages. -/
def pair : CoherentSet := ⟨7, 2, 2, by decide, by decide⟩

def reader : Subscriber where
  accessScope := .topicPresentation
  coherentAccess := true
  readers := fun _ => { writers := [.create 7], samples := [] }
  datareaderSet := []
  decisions := []

def sample (n : Int) : Message :=
  .data ⟨.sampleData, true, false, false, n, 7, guidUnknown⟩ .stored 0 true

def endOfSet : Message :=
  .endCoherentChanges ⟨.endCoherentChanges, false, false, false, 0, 7, guidUnknown⟩
    ⟨pair.info, false, guidUnknown⟩

theorem reader_ready : Ready pair reader where
  scope := rfl
  access := rfl
  writer := ⟨.create 7, rfl, rfl, rfl, wellFormed_nil⟩
  samples := by simp [reader]

theorem receives_deliver {x : Reception} {m : Message} (hdom : InDomain pair m)
    (hok : (x.2.dataReceived 0 m).toOption.isSome) :
    Receives pair x m (x.1 ++ [m], x.2.deliver 0 m) :=
  ⟨hdom, rfl, Subscriber.dataReceived_deliver hok⟩

/-- Both samples arrive, then the end: both are readable. -/
theorem coherent_set_all_or_nothing_pair :
    ∃ x, Run ([], reader) (ReceivesBased pair) [sample 1, sample 2, endOfSet] x ∧
      (x.2.readers 0).samples = [⟨1, 7, guidUnknown, false⟩, ⟨2, 7, guidUnknown, false⟩] ∧
      AllOrNothing pair x.1 (x.2.readers 0).samples := by
  have h₁ : ReceivesBased pair ([], reader) (sample 1)
      ([sample 1], reader.deliver 0 (sample 1)) := by
    refine ⟨receives_deliver ⟨rfl, rfl, rfl, rfl, rfl, by decide⟩ (by decide), ?_⟩
    intro w hw _ n hn hlt
    have hone := CoherentSet.one_le hn
    have hsmall : n < 1 := hlt
    omega
  have h₂ : ReceivesBased pair ([sample 1], reader.deliver 0 (sample 1)) (sample 2)
      ([sample 1, sample 2], (reader.deliver 0 (sample 1)).deliver 0 (sample 2)) := by
    refine ⟨receives_deliver ⟨rfl, rfl, rfl, rfl, rfl, by decide⟩ (by decide), ?_⟩
    intro w hw _ n hn hlt
    have hone := CoherentSet.one_le hn
    have hsmall : n < 2 := hlt
    obtain rfl : n = 1 := by omega
    decide
  have h₃ : ReceivesBased pair
      ([sample 1, sample 2], (reader.deliver 0 (sample 1)).deliver 0 (sample 2)) endOfSet
      ([sample 1, sample 2, endOfSet],
        ((reader.deliver 0 (sample 1)).deliver 0 (sample 2)).deliver 0 endOfSet) := by
    refine ⟨receives_deliver ⟨rfl, rfl, rfl⟩ (by decide), ?_⟩
    show ∀ w ∈ (((reader.deliver 0 (sample 1)).deliver 0 (sample 2)).readers 0).writers,
      w.coherentSampleSequence ≠ []
    decide
  have run := ((Run.start.next h₁).next h₂).next h₃
  exact ⟨_, run, by decide, (coherent_set_all_or_nothing pair reader_ready run).1⟩

/-- The first sample is lost, and the second becomes readable. -/
theorem first_sample_lost :
    ¬ ∀ (set : CoherentSet) (start : Subscriber) (ms : List Message) (x : Reception),
      Ready set start → Run ([], start) (Receives set) ms x →
      AllOrNothing set x.1 (x.2.readers 0).samples := by
  intro claim
  have h₁ : Receives pair ([], reader) (sample 2) ([sample 2], reader.deliver 0 (sample 2)) :=
    receives_deliver ⟨rfl, rfl, rfl, rfl, rfl, by decide⟩ (by decide)
  have h₂ : Receives pair ([sample 2], reader.deliver 0 (sample 2)) endOfSet
      ([sample 2, endOfSet], (reader.deliver 0 (sample 2)).deliver 0 endOfSet) :=
    receives_deliver ⟨rfl, rfl, rfl⟩ (by decide)
  have hall := claim pair reader _ _ reader_ready ((Run.start.next h₁).next h₂)
    ⟨⟨2, 7, guidUnknown, false⟩, by decide, rfl, by decide, rfl⟩ 1 (by decide)
  revert hall
  decide

end OpenDDS.Guarantees.CoherentSets
