import OpenDDS.Library.Run
import OpenDDS.Source.SampleReception

/-!
# Decisions on coherent sets of a group

When the sets of all writers of a publisher are decided, the readers are told to forget
what they recorded of them. `SubscriberImpl::coherent_change_received` names the writer
`GUID_UNKNOWN` to its readers, for which `CoherentFilter` selects by the publisher alone;
`DataReaderImpl::reset_coherent_info` asks for the writer as well, and no writer has that
name. So no decision ever resets the record of a writer.
-/
namespace OpenDDS.Guarantees.GroupCoherence
open Library Source Source.DisjointSequence Source.WriterInfo
open Source.SampleReception

/-- A subscriber with group presentation whose readers have received nothing. -/
structure Ready (s : Subscriber) : Prop where
  scope : s.accessScope = .groupPresentation
  access : s.coherentAccess = true
  writers : ∀ reader, ∀ w ∈ (s.readers reader).writers, w.writerId ≠ guidUnknown ∧
    w = .create w.writerId

/-- A sample or the end of a set. A sample of a group names the publisher of its writer. -/
def InDomain (publisherOf : Nat → Nat) : Message → Prop
  | .data header _ _ _ => header.groupCoherent = true →
      header.publisherId = publisherOf header.publicationId
  | .endCoherentChanges _ _ => True
  | .requestAck _ _ _ _ _ => True

def Receives (publisherOf : Nat → Nat) (s : Subscriber) (m : Nat × Message) (after : Subscriber) :
    Prop :=
  InDomain publisherOf m.2 ∧ ∃ ack, s.dataReceived m.1 m.2 = .ok (ack, after)

def ReadyForNext (publisherOf : Nat → Nat) (publisher : Nat) (s : Subscriber) : Prop :=
  ∀ reader ∈ s.datareaderSet, ∀ w ∈ (s.readers reader).writers, publisherOf w.writerId = publisher →
    w.coherentSamples = 0 ∧ w.coherentSampleSequence = [] ∧ w.writerCoherentSamples = .reset

/-- The step ends with a decision on the sets of the publisher. -/
def Decides (s after : Subscriber) (publisher : Nat) : Prop :=
  ∃ state, after.decisions = s.decisions ++ [(publisher, state)]

variable {publisherOf : Nat → Nat} {s after : Subscriber} {w : WriterInfo} {header : SampleHeader}
  {reader publisher : Nat}

/-- A writer that is known by its publisher belongs to a reader with data. -/
def KnownWriter (publisherOf : Nat → Nat) (s : Subscriber) (reader : Nat) (w : WriterInfo) : Prop :=
  w.writerId ≠ guidUnknown ∧ (w.groupCoherent = true →
    reader ∈ s.datareaderSet ∧ w.publisherId = publisherOf w.writerId)

structure Known (publisherOf : Nat → Nat) (s : Subscriber) : Prop where
  scope : s.accessScope = .groupPresentation
  access : s.coherentAccess = true
  writers : ∀ reader, ∀ w ∈ (s.readers reader).writers, KnownWriter publisherOf s reader w

/-- What a message leaves: a decision, if there is one, leaves a writer that is not ready. -/
structure Leaves (publisherOf : Nat → Nat) (s after : Subscriber) : Prop where
  known : Known publisherOf after
  undecided : after.decisions = s.decisions ∨ ∃ publisher state,
    after.decisions = s.decisions ++ [(publisher, state)] ∧
      ¬ ReadyForNext publisherOf publisher after

variable {r : Reader}

theorem resetCoherentInfo_unknown (h : ∀ w ∈ r.writers, w.writerId ≠ guidUnknown) :
    (r.resetCoherentInfo guidUnknown publisher).writers = r.writers := by
  unfold Reader.resetCoherentInfo
  rw [List.map_congr_left (g := id), List.map_id]
  intro w hw
  exact if_neg fun hmatch => h w hw hmatch.1

variable {w' : WriterInfo}

theorem mem_setWriter (hmem : w ∈ (r.setWriter w').writers) : w = w' ∨ w ∈ r.writers := by
  obtain ⟨x, hx, rfl⟩ := List.mem_map.mp hmem
  split
  · exact .inl rfl
  · exact .inr hx

theorem setWriter_mem (hmem : w ∈ r.writers) (hid : w'.writerId = w.writerId) :
    w' ∈ (r.setWriter w').writers := by
  apply List.mem_map.mpr
  exact ⟨w, hmem, if_pos hid.symm⟩

theorem findWriter_some {id : Nat} (h : r.findWriter id = some w) :
    w ∈ r.writers ∧ w.writerId = id :=
  ⟨List.mem_of_find?_eq_some h, by simpa using List.find?_some h⟩

theorem KnownWriter.reset (h : KnownWriter publisherOf s reader w) :
    KnownWriter publisherOf s reader w.resetCoherentInfo :=
  ⟨h.1, fun hgroup => absurd hgroup (by simp [WriterInfo.resetCoherentInfo])⟩

theorem Known.setReader (h : Known publisherOf s)
    (hr : ∀ w ∈ r.writers, KnownWriter publisherOf s reader w) :
    Known publisherOf (s.setReader reader r) where
  scope := h.scope
  access := h.access
  writers x w hw := by
    rcases eq_or_ne x reader with rfl | hne
    · simp only [Subscriber.setReader, Function.update_self] at hw
      exact hr w hw
    · simp only [Subscriber.setReader, Function.update_of_ne hne] at hw
      exact h.writers x w hw

theorem Known.setWriter (h : Known publisherOf s) (hw' : KnownWriter publisherOf s reader w') :
    Known publisherOf (s.setReader reader ((s.readers reader).setWriter w')) := by
  apply h.setReader
  intro x hx
  rcases mem_setWriter hx with rfl | hx
  · exact hw'
  · exact h.writers reader x hx

theorem forReaders_writers (f : Reader → Reader)
    (hf : ∀ reader, (f (s.readers reader)).writers = (s.readers reader).writers) (reader : Nat) :
    ((s.forReaders f).readers reader).writers = (s.readers reader).writers := by
  unfold Subscriber.forReaders
  simp only
  split
  · exact hf reader
  · rfl

theorem Known.congr (h : Known publisherOf s) (scope : after.accessScope = s.accessScope)
    (access : after.coherentAccess = s.coherentAccess)
    (writers : ∀ reader, (after.readers reader).writers = (s.readers reader).writers)
    (readers : ∀ reader ∈ s.datareaderSet, reader ∈ after.datareaderSet) :
    Known publisherOf after where
  scope := scope.trans h.scope
  access := access.trans h.access
  writers reader w hw := by
    rw [writers] at hw
    obtain ⟨hnamed, hgrouped⟩ := h.writers reader w hw
    refine ⟨hnamed, fun hgroup => ?_⟩
    obtain ⟨hreader, hpublisher⟩ := hgrouped hgroup
    exact ⟨readers reader hreader, hpublisher⟩

theorem Known.decision {state : CoherentState} (h : Known publisherOf s)
    (heq : s.coherentChangeReceived publisher = .ok (state, after)) :
    after = s ∨ ((∃ verdict, after.decisions = s.decisions ++ [(publisher, verdict)]) ∧
      after.accessScope = s.accessScope ∧ after.coherentAccess = s.coherentAccess ∧
      after.datareaderSet = s.datareaderSet ∧
      ∀ reader, (after.readers reader).writers = (s.readers reader).writers) := by
  have hreject : ∀ reader, ((s.readers reader).rejectCoherent guidUnknown publisher).writers =
      (s.readers reader).writers :=
    fun reader => resetCoherentInfo_unknown fun w hw => (h.writers reader w hw).1
  have haccept : ∀ reader, (((s.readers reader).acceptCoherent guidUnknown
      publisher).resetCoherentInfo guidUnknown publisher).writers = (s.readers reader).writers :=
    fun reader => resetCoherentInfo_unknown fun w hw => (h.writers reader w hw).1
  unfold Subscriber.coherentChangeReceived at heq
  split at heq
  · cases heq
  · cases heq
    exact .inl rfl
  · cases heq
    exact .inr ⟨⟨_, rfl⟩, rfl, rfl, rfl, forReaders_writers (fun r => r.rejectCoherent guidUnknown publisher) hreject⟩
  · cases heq
    exact .inr ⟨⟨_, rfl⟩, rfl, rfl, rfl, forReaders_writers (fun r => (r.acceptCoherent guidUnknown
      publisher).resetCoherentInfo guidUnknown publisher) haccept⟩

theorem Known.leaves (h : Known publisherOf s) : Leaves publisherOf s s := ⟨h, .inl rfl⟩

theorem Known.verify (h : Known publisherOf s) (hmem : w ∈ (s.readers reader).writers)
    (heq : s.verifyCoherentChangesCompletion reader w = .ok after) : Leaves publisherOf s after := by
  have hscope : ¬ (s.accessScope = .instancePresentation ∨ (!s.coherentAccess) = true) := by
    simp [h.scope, h.access]
  unfold Subscriber.verifyCoherentChangesCompletion at heq
  simp only [hscope, if_false] at heq
  split at heq
  · cases heq
  rename_i state hstate
  split at heq
  · rename_i hgroup
    split at heq
    · rename_i hdecided
      cases hreceived : s.coherentChangeReceived w.publisherId with
      | error fault =>
        rw [hreceived] at heq
        cases heq
      | ok result =>
        rw [hreceived] at heq
        obtain rfl : result.2 = after := by simpa [Except.map] using heq
        rcases h.decision hreceived with hsame | ⟨⟨verdict, hlog⟩, hs, ha, hset, hwriters⟩
        · rw [hsame]
          exact h.leaves
        · refine ⟨h.congr hs ha hwriters fun r hr => hset ▸ hr, .inr ⟨_, verdict, hlog, ?_⟩⟩
          intro hready
          obtain ⟨hreader, hpublisher⟩ := (h.writers reader w hmem).2 hgroup
          have hreset := (hready reader (hset ▸ hreader) w (hwriters reader ▸ hmem)
            hpublisher.symm).2.2
          -- A verdict is given only once the end of the set is known.
          have hstate' : w.coherentChangeReceived = .ok .notCompletedYet := by
            simp [WriterInfo.coherentChangeReceived, hreset, WriterCoherentSample.reset]
          rw [hstate, Except.ok.injEq] at hstate'
          exact hdecided hstate'
    · cases heq
      exact h.leaves
  · have hreset := (h.writers reader w hmem).reset
    split at heq
    · cases heq
      refine ⟨h.setReader ?_, .inl rfl⟩
      intro x hx
      rcases mem_setWriter hx with rfl | hx
      · exact hreset
      · exact h.writers reader x hx
    · cases heq
      refine ⟨h.setReader ?_, .inl rfl⟩
      intro x hx
      rcases mem_setWriter hx with rfl | hx
      · exact hreset
      · obtain ⟨y, hy, rfl⟩ := List.mem_map.mp hx
        split
        · exact (h.writers reader y hy).reset
        · exact h.writers reader y hy
    · cases heq
      exact h.leaves

theorem KnownWriter.congr (h : KnownWriter publisherOf s reader w) (id : w'.writerId = w.writerId)
    (group : w'.groupCoherent = w.groupCoherent) (publisher : w'.publisherId = w.publisherId) :
    KnownWriter publisherOf s reader w' := by
  unfold KnownWriter
  rw [id, group, publisher]
  exact h

theorem writerActivity_group (h : w.writerActivity header = .ok w') :
    w'.writerId = w.writerId ∧ w'.groupCoherent = w.groupCoherent ∧
      w'.publisherId = w.publisherId := by
  have hsequence : ∀ {v}, w.recordSequence header = .ok v → v.writerId = w.writerId ∧
      v.groupCoherent = w.groupCoherent ∧ v.publisherId = w.publisherId := by
    intro v hv
    unfold recordSequence at hv
    split at hv
    · split at hv
      · cases hv
      · cases hv
        exact ⟨rfl, rfl, rfl⟩
    · split at hv
      · cases hv
      · cases hv
        exact ⟨rfl, rfl, rfl⟩
  unfold WriterInfo.writerActivity at h
  split at h
  · split at h
    · cases h
    · rename_i v hv
      split at h
      · unfold recordCoherent at h
        simp only at h
        split at h
        · cases h
        · obtain ⟨hid, hgroup, hpublisher⟩ := hsequence hv
          cases h
          exact ⟨hid, hgroup, hpublisher⟩
      · cases h
        exact hsequence hv
  · cases h
    exact ⟨rfl, rfl, rfl⟩

theorem Known.activity (h : Known publisherOf s)
    (heq : s.writerActivity reader header = .ok after) :
    Known publisherOf after ∧ after.decisions = s.decisions := by
  unfold Subscriber.writerActivity at heq
  split at heq
  · cases heq
    exact ⟨h, rfl⟩
  · rename_i w hfind
    split at heq
    · cases heq
    · rename_i w' hw'
      cases heq
      obtain ⟨hid, hgroup, hpublisher⟩ := writerActivity_group hw'
      have hwriter := h.writers reader w (findWriter_some hfind).1
      exact ⟨h.setWriter (hwriter.congr hid hgroup hpublisher), rfl⟩

theorem Known.readerWithData (h : Known publisherOf s) (reader : Nat) :
    Known publisherOf (s.readerWithData reader) ∧ reader ∈ (s.readerWithData reader).datareaderSet ∧
      (s.readerWithData reader).decisions = s.decisions := by
  unfold Subscriber.readerWithData
  split
  · rename_i hmem
    exact ⟨h, hmem, rfl⟩
  · refine ⟨h.congr rfl rfl (fun _ => rfl) ?_, by simp, rfl⟩
    intro x hx
    simpa using Or.inr hx

theorem Leaves.of_eq {s' : Subscriber} (h : Leaves publisherOf s' after)
    (decisions : s'.decisions = s.decisions) : Leaves publisherOf s after := by
  refine ⟨h.known, ?_⟩
  rw [← decisions]
  exact h.undecided

variable {ack : Option Int}

theorem Known.accept {now : Int} {sent : Bool} (h : Known publisherOf s)
    (hreader : reader ∈ s.datareaderSet)
    (hdom : header.groupCoherent = true → header.publisherId = publisherOf header.publicationId)
    (heq : s.acceptData reader header now sent = .ok (ack, after)) :
    Leaves publisherOf s after := by
  unfold Subscriber.acceptData at heq
  split at heq
  · cases heq
    exact h.leaves
  rename_i w hfind
  obtain ⟨hmem, hid⟩ := findWriter_some hfind
  have hwriter := h.writers reader w hmem
  obtain ⟨entries, hframe⟩ := acknowledge_frame (w.countCoherent header) header.sequence now sent
  generalize (w.countCoherent header).acknowledge header.sequence now sent = acked at *
  have hcounted : KnownWriter publisherOf s reader acked.2 ∧ acked.2.writerId = w.writerId := by
    rw [hframe]
    unfold countCoherent
    split
    · refine ⟨⟨hwriter.1, fun hgroup => ⟨hreader, ?_⟩⟩, rfl⟩
      simp only [hid]
      exact hdom hgroup
    · exact ⟨hwriter, rfl⟩
  have hknown := h.setWriter hcounted.1
  simp only at heq
  split at heq
  · cases hverify : (s.setReader reader ((s.readers reader).setWriter
        acked.2)).verifyCoherentChangesCompletion reader acked.2 with
    | error fault =>
      rw [hverify] at heq
      cases heq
    | ok result =>
      rw [hverify] at heq
      cases heq
      have hmem' : acked.2 ∈ ((s.setReader reader ((s.readers reader).setWriter
          acked.2)).readers reader).writers := by
        simp only [Subscriber.setReader, Function.update_self]
        exact setWriter_mem hmem hcounted.2
      exact (hknown.verify hmem' hverify).of_eq rfl
  · cases heq
    exact ⟨hknown, .inl rfl⟩

theorem Known.data {outcome : Outcome} {now : Int} {sent : Bool} (h : Known publisherOf s)
    (hdom : InDomain publisherOf (.data header outcome now sent))
    (heq : s.dataReceived reader (.data header outcome now sent) = .ok (ack, after)) :
    Leaves publisherOf s after := by
  simp only [Subscriber.dataReceived] at heq
  split at heq
  · cases heq
  rename_i s₁ hs₁
  obtain ⟨h₁, hlog₁⟩ := h.activity hs₁
  obtain ⟨h₂, hmem, hlog₂⟩ := h₁.readerWithData reader
  cases outcome with
  | expired =>
    cases heq
    exact ⟨h₁, .inl hlog₁⟩
  | filtered =>
    cases heq
    exact ⟨h₂, .inl (hlog₂.trans hlog₁)⟩
  | refused => exact (h₂.accept hmem hdom heq).of_eq (hlog₂.trans hlog₁)
  | stored =>
    have h₃ : Known publisherOf ((s₁.readerWithData reader).store reader header) := by
      apply h₂.setReader
      exact fun w hw => h₂.writers reader w hw
    exact (h₃.accept hmem hdom heq).of_eq (hlog₂.trans hlog₁)

theorem Known.step {m : Message} (h : Known publisherOf s) (hdom : InDomain publisherOf m)
    (heq : s.dataReceived reader m = .ok (ack, after)) : Leaves publisherOf s after := by
  cases m with
  | data header outcome now sent => exact h.data hdom heq
  | requestAck header ack delay now sent =>
    simp only [Subscriber.dataReceived] at heq
    split at heq
    · cases heq
    rename_i s₁ hs₁
    obtain ⟨h₁, hlog₁⟩ := h.activity hs₁
    split at heq
    · cases heq
      exact ⟨h₁, .inl hlog₁⟩
    rename_i w hfind
    cases heq
    obtain ⟨entries, hdeadline⟩ := ackDeadline_frame w ack (durationToAbsoluteTimeValue delay now)
    obtain ⟨entries', hframe⟩ := acknowledge_frame
      (w.ackDeadline ack (durationToAbsoluteTimeValue delay now)) ack now sent
    refine ⟨h₁.setWriter ?_, .inl hlog₁⟩
    rw [hframe, hdeadline]
    exact (h₁.writers reader w (findWriter_some hfind).1).congr rfl rfl rfl
  | endCoherentChanges header control =>
    simp only [Subscriber.dataReceived] at heq
    split at heq
    · cases heq
    rename_i s₁ hs₁
    obtain ⟨h₁, hlog₁⟩ := h.activity hs₁
    split at heq
    · cases heq
      exact ⟨h₁, .inl hlog₁⟩
    rename_i w hfind
    have hmem := (findWriter_some hfind).1
    have hknown : Known publisherOf (s₁.setReader reader
        ((s₁.readers reader).setWriter (w.setGroupInfo control))) :=
      h₁.setWriter ((h₁.writers reader w hmem).congr rfl rfl rfl)
    cases hverify : (s₁.setReader reader ((s₁.readers reader).setWriter
        (w.setGroupInfo control))).verifyCoherentChangesCompletion reader
        (w.setGroupInfo control) with
    | error fault =>
      rw [hverify] at heq
      cases heq
    | ok result =>
      rw [hverify] at heq
      cases heq
      refine (hknown.verify ?_ hverify).of_eq hlog₁
      simp only [Subscriber.setReader, Function.update_self]
      exact setWriter_mem hmem rfl

theorem Ready.known (h : Ready s) : Known publisherOf s where
  scope := h.scope
  access := h.access
  writers reader w hw := by
    obtain ⟨hid, hnew⟩ := h.writers reader w hw
    refine ⟨hid, fun hgroup => ?_⟩
    rw [hnew] at hgroup
    cases hgroup

/-- No decision, in any run, leaves every writer of the publisher ready for its next set. -/
theorem decision_resets_nothing (publisherOf : Nat → Nat) {start : Subscriber} (hready : Ready start)
    {ms : List (Nat × Message)} {s : Subscriber} (run : Run start (Receives publisherOf) ms s)
    {m : Nat × Message} {after : Subscriber} (hstep : Receives publisherOf s m after)
    {publisher : Nat} (hdecides : Decides s after publisher) :
    ¬ ReadyForNext publisherOf publisher after := by
  have hknown : Known publisherOf s := by
    apply run.invariant (Known publisherOf)
    · exact hready.known
    · rintro s m after h ⟨hdom, ack, heq⟩
      exact (h.step hdom heq).known
  obtain ⟨hdom, ack, heq⟩ := hstep
  obtain ⟨state, hlog⟩ := hdecides
  rcases (hknown.step hdom heq).undecided with hsame | ⟨p, state', hlog', hnot⟩
  · rw [hlog] at hsame
    simp at hsame
  · rw [hlog, List.append_cancel_left_eq, List.cons.injEq, Prod.mk.injEq] at hlog'
    obtain ⟨⟨rfl, -⟩, -⟩ := hlog'
    exact hnot

/-- One reader with the writer 7 of the publisher 3, a coherent sample of it and the end of
its set. -/
def groupReader : Subscriber where
  accessScope := .groupPresentation
  coherentAccess := true
  readers := fun _ => { writers := [.create 7], samples := [] }
  datareaderSet := []
  decisions := []

def sample : Nat × Message := (0, .data ⟨.sampleData, true, true, false, 1, 7, 3⟩ .stored 0 true)

def endOfSet : Nat × Message :=
  (0, .endCoherentChanges ⟨.endCoherentChanges, false, false, false, 0, 7, 3⟩ ⟨⟨1, 1⟩, true, 3⟩)

theorem groupReader_ready : Ready groupReader where
  scope := rfl
  access := rfl
  writers _ w hw := by
    rw [List.mem_singleton.mp hw]
    exact ⟨by decide, rfl⟩

theorem receives_deliver {publisherOf : Nat → Nat} {s : Subscriber} {m : Nat × Message}
    (hdom : InDomain publisherOf m.2) (hok : (s.dataReceived m.1 m.2).toOption.isSome) :
    Receives publisherOf s m (s.deliver m.1 m.2) :=
  ⟨hdom, Subscriber.dataReceived_deliver hok⟩

theorem sample_received : Receives (fun _ => 3) groupReader sample (groupReader.deliver 0 sample.2) :=
  receives_deliver (fun _ => rfl) (by decide)

theorem endOfSet_received : Receives (fun _ => 3) (groupReader.deliver 0 sample.2) endOfSet
    ((groupReader.deliver 0 sample.2).deliver 0 endOfSet.2) := receives_deliver trivial (by decide)

/-- The set of one sample is accepted, and its writer still has the record of it. -/
theorem decision_resets_nothing_single :
    Decides (groupReader.deliver 0 sample.2) ((groupReader.deliver 0 sample.2).deliver 0 endOfSet.2) 3 ∧
      ¬ ReadyForNext (fun _ => 3) 3 ((groupReader.deliver 0 sample.2).deliver 0 endOfSet.2) := by
  have hdecides : Decides (groupReader.deliver 0 sample.2)
      ((groupReader.deliver 0 sample.2).deliver 0 endOfSet.2) 3 := ⟨.completed, by decide⟩
  exact ⟨hdecides,
    decision_resets_nothing (fun _ => 3) groupReader_ready (Run.start.next sample_received)
      endOfSet_received hdecides⟩

theorem record_kept_after_decision :
    ¬ ∀ (publisherOf : Nat → Nat) (start : Subscriber) (ms : List (Nat × Message)) (s : Subscriber)
      (m : Nat × Message) (after : Subscriber) (publisher : Nat), Ready start →
      Run start (Receives publisherOf) ms s → Receives publisherOf s m after →
      Decides s after publisher → ReadyForNext publisherOf publisher after := by
  intro claim
  have hready := claim (fun _ => 3) groupReader _ _ _ _ 3 groupReader_ready
    (Run.start.next sample_received) endOfSet_received ⟨.completed, by decide⟩
  have hmem : ∃ w ∈ (((groupReader.deliver 0 sample.2).deliver 0 endOfSet.2).readers 0).writers,
      w.coherentSamples ≠ 0 := by decide
  obtain ⟨w, hw, hcount⟩ := hmem
  exact hcount (hready 0 (by decide) w hw rfl).1

end OpenDDS.Guarantees.GroupCoherence
