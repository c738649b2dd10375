import OpenDDS.Guarantees.ParticipantTable

/-!
# Participants that are associated

A participant in the table is associated or waits for it in the queue of the task. A participant
that is removed leaves the table and the associated ones at once, but not the queue: if it still
waits there, the task associates it when it is gone.
-/
namespace OpenDDS.Guarantees.ParticipantAssociation

open Library Source.ParticipantDiscovery ParticipantTable
open Source.DataSampleHeader (GUID)

variable {s s' : Spdp} {g : GUID}

/-- The association of the participant waits for the task. -/
def Waits (s : Spdp) (g : GUID) : Prop := ∃ pdata ∈ s.sedp.queue, pdata.guid = g

/-- Nobody is removed whose association waits. -/
def Settled (s : Spdp) : Event → Prop
  | .received _ m => ∀ pdata, m.pdata = some pdata → s.sedp.ignoring pdata.guid = false →
      s.hasDiscoveredParticipant pdata.guid = true → disposed m.inlineQos = true →
        ¬ Waits s pdata.guid
  | .tick clock => ∀ g, Over clock s g → ¬ Waits s g
  | .svcI => True

structure Covered (s : Spdp) : Prop where
  keyed : Keyed s
  covers : ∀ g, s.hasDiscoveredParticipant g = true ↔ g ∈ s.sedp.associatedParticipants ∨ Waits s g

theorem Covered.remove {gone : GUID → Prop} (h : Covered s) (hremoves : Removes gone s s')
    (hsettled : ∀ g, gone g → ¬ Waits s g) : Covered s' := by
  refine ⟨hremoves.keyed h.keyed, fun g => ?_⟩
  have hwaits : Waits s' g ↔ Waits s g := by
    rw [Waits, Waits, hremoves.queue]
  have hhas : s'.hasDiscoveredParticipant g = true ↔
      s.hasDiscoveredParticipant g = true ∧ ¬ gone g := by
    simp only [Spdp.hasDiscoveredParticipant, Option.isSome_iff_exists, hremoves.participants]
    simp
  rw [hhas, hremoves.associated, hwaits, h.covers]
  tauto

theorem Covered.add {pdata : ParticipantData} {time : Int} (h : Covered s)
    (hnone : s.participants.lookup pdata.guid = none)
    (hkeyed : Keyed ⟨s.participants ++ [(pdata.guid, ⟨pdata, time⟩)], s.sedp.associate pdata⟩) :
    Covered ⟨s.participants ++ [(pdata.guid, ⟨pdata, time⟩)], s.sedp.associate pdata⟩ := by
  refine ⟨hkeyed, fun g => ?_⟩
  have hwaits : Waits ⟨s.participants ++ [(pdata.guid, ⟨pdata, time⟩)], s.sedp.associate pdata⟩ g ↔
      Waits s g ∨ g = pdata.guid := by
    simp only [Waits, Sedp.associate, List.mem_append, List.mem_singleton]
    constructor
    · rintro ⟨queued, hqueued | rfl, hguid⟩
      · exact .inl ⟨queued, hqueued, hguid⟩
      · exact .inr hguid.symm
    · rintro (⟨queued, hqueued, hguid⟩ | rfl)
      · exact ⟨queued, .inl hqueued, hguid⟩
      · exact ⟨pdata, .inr rfl, rfl⟩
  have hcovers := h.covers g
  rw [hwaits, Spdp.hasDiscoveredParticipant, lookup_added hnone]
  by_cases hg : g = pdata.guid
  · simp [hg]
  · rw [if_neg hg, or_iff_left hg]
    exact hcovers

theorem Covered.renew {pdata : ParticipantData} {time : Int} {part : DiscoveredParticipant}
    (h : Covered s) (hpart : s.participants.lookup pdata.guid = some part)
    (hs' : s' = { s with participants := s.participants.map fun entry =>
      if entry.1 = pdata.guid then (pdata.guid, ⟨pdata, time⟩) else entry })
    (hkeyed : Keyed s') : Covered s' := by
  refine ⟨hkeyed, fun g => ?_⟩
  subst hs'
  have hcovers := h.covers g
  rw [Spdp.hasDiscoveredParticipant, lookup_renewed hpart]
  by_cases hg : g = pdata.guid
  · rw [Spdp.hasDiscoveredParticipant, hg, hpart] at hcovers
    rw [if_pos hg, hg]
    exact hcovers
  · rw [if_neg hg]
    exact hcovers

theorem Covered.svcI (h : Covered s) : Covered (s.step .svcI) := by
  refine ⟨h.keyed, fun g => ?_⟩
  have hcovers := h.covers g
  change s.hasDiscoveredParticipant g = true ↔ _
  rw [hcovers]
  unfold Spdp.step Sedp.svcI Waits
  cases hqueue : s.sedp.queue with
  | nil => simp [hqueue]
  | cons pdata queue =>
    simp only [List.mem_cons, exists_eq_or_imp, List.mem_insert_iff]
    tauto

theorem Covered.step (h : Covered s) {event : Event} (hsettled : Settled s event) :
    Covered (s.step event) := by
  have hkeyed := step_keyed h.keyed event
  cases event with
  | received time m =>
    rw [Spdp.step] at hkeyed ⊢
    obtain ⟨-, heq⟩ | ⟨pdata, hpdata, hignoring, hcases⟩ := dataReceived_cases time m s
    · rw [heq]
      exact h
    obtain ⟨hnone, heq⟩ | ⟨part, hpart, ⟨hdisposed, heq⟩ | ⟨-, heq⟩⟩ := hcases
    · rw [heq] at hkeyed ⊢
      exact h.add hnone hkeyed
    · have hhas : s.hasDiscoveredParticipant pdata.guid = true := by
        rw [Spdp.hasDiscoveredParticipant, hpart]
        rfl
      rw [heq]
      refine h.remove (removeDiscoveredParticipant_removes hpart (h.keyed _ part hpart)) ?_
      rintro g rfl
      exact hsettled pdata hpdata hignoring hhas hdisposed
    · exact h.renew hpart heq hkeyed
  | tick clock => exact h.remove (removeExpiredParticipants_removes clock h.keyed) hsettled
  | svcI => exact h.svcI

def Performs (s : Spdp) (event : Event) (s' : Spdp) : Prop := s.step event = s' ∧ Settled s event

theorem run_covered {ignored : List GUID} {events : List Event}
    (run : Run (create ignored) Performs events s) : Covered s := by
  have base : Covered (create ignored) := by
    refine ⟨by simp [Keyed, create], fun g => ?_⟩
    simp [Spdp.hasDiscoveredParticipant, Waits, create]
  apply run.invariant Covered base
  rintro s event after h ⟨rfl, hsettled⟩
  exact h.step hsettled

/-- **When the queue is empty the participants in the table are the associated ones**, if nobody
was removed while its association waited. -/
theorem associated_iff_in_table {ignored : List GUID} {events : List Event}
    (run : Run (create ignored) Performs events s) (hqueue : s.sedp.queue = []) (g : GUID) :
    g ∈ s.sedp.associatedParticipants ↔ s.hasDiscoveredParticipant g = true := by
  have hnobody : ¬ Waits s g := by simp [Waits, hqueue]
  rw [(run_covered run).covers, or_iff_left hnobody]

section

/-- A participant that leaves after it is associated. -/
theorem leaves_associated :
    ∃ s, Run (create []) Performs
        [.received 0 announcement, .svcI, .received 1 announcement, .received 2 disposal] s ∧
      s.sedp.queue = [] ∧ (participantGuid peer ∈ s.sedp.associatedParticipants ↔
        s.hasDiscoveredParticipant (participantGuid peer) = true) := by
  have hsettled : ∀ (s : Spdp) (time : Int), Settled s (.received time announcement) := by
    intro s time pdata _ _ _ hdisposed
    cases hdisposed
  have run : Run (create []) Performs
      [.received 0 announcement, .svcI, .received 1 announcement, .received 2 disposal] _ :=
    (((Run.start.next ⟨rfl, hsettled _ _⟩).next ⟨rfl, trivial⟩).next
      ⟨rfl, hsettled _ _⟩).next ⟨rfl, by
        rintro pdata - - - - ⟨queued, hqueued, -⟩
        cases hqueued⟩
  exact ⟨_, run, rfl, associated_iff_in_table run rfl _⟩

/-- The task associates a participant that left before its turn. -/
theorem associated_after_disposal : ¬ ∀ (ignored : List GUID) (events : List Event) (s : Spdp),
    Run (create ignored) ParticipantTable.Performs events s → s.sedp.queue = [] →
      ∀ g, g ∈ s.sedp.associatedParticipants ↔ s.hasDiscoveredParticipant g = true := by
  intro claim
  have run : Run (create []) ParticipantTable.Performs
      [.received 0 announcement, .received 1 disposal, .svcI] _ :=
    ((Run.start.next ⟨rfl, announcement_timely _ _⟩).next
      ⟨rfl, disposal_timely (by decide)⟩).next ⟨rfl, trivial⟩
  have hclaim := (claim [] _ _ run rfl (participantGuid peer)).mp (by decide)
  have habsent : ([.received 0 announcement, .received 1 disposal, .svcI].foldl Spdp.step
      (create [])).hasDiscoveredParticipant (participantGuid peer) = false := by decide
  rw [List.foldl_cons, List.foldl_cons, List.foldl_cons, List.foldl_nil, hclaim] at habsent
  cases habsent

end

end OpenDDS.Guarantees.ParticipantAssociation
