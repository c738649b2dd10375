import OpenDDS.Library.AssociationList
import OpenDDS.Library.Run
import OpenDDS.Source.ParticipantDiscovery

/-!
# The table of participants

Each step of `Spdp` is described by what it does to the entry of every guid: a message that is
new adds one, a dispose message takes one out, a tick takes out those whose lease is over. The
table then holds those participants of which an announcement is the latest that was heard, if
no dispose message comes for a participant that is not in the table.
-/
namespace OpenDDS.Guarantees.ParticipantTable

open Library Library.AssociationList Source.ParticipantDiscovery
open Source.DataSampleHeader (GUID)

variable {s s' : Spdp} {guid g : GUID} {clock : GUID → Int}

section

/-- The data of an entry are those of its guid. -/
def Keyed (s : Spdp) : Prop :=
  ∀ g part, s.participants.lookup g = some part → part.pdata.guid = g

/-- The participants with `gone` are removed and disassociated, nothing else changes. -/
structure Removes (gone : GUID → Prop) (s s' : Spdp) : Prop where
  participants : ∀ g part, s'.participants.lookup g = some part ↔
    s.participants.lookup g = some part ∧ ¬ gone g
  associated : ∀ g, g ∈ s'.sedp.associatedParticipants ↔
    g ∈ s.sedp.associatedParticipants ∧ ¬ gone g
  queue : s'.sedp.queue = s.sedp.queue
  ignored : s'.sedp.ignoredGuids = s.sedp.ignoredGuids

theorem Removes.keyed {gone : GUID → Prop} (h : Removes gone s s') (hkeyed : Keyed s) : Keyed s' := by
  intro g part hpart
  exact hkeyed g part ((h.participants g part).mp hpart).1

theorem Removes.lookup_none {gone : GUID → Prop} (h : Removes gone s s') :
    s'.participants.lookup g = none ↔ s.participants.lookup g = none ∨ gone g := by
  constructor
  · intro hnone
    by_cases hgone : gone g
    · exact .inr hgone
    · left
      cases hpart : s.participants.lookup g with
      | none => rfl
      | some part =>
        rw [(h.participants g part).mpr ⟨hpart, hgone⟩] at hnone
        cases hnone
  · intro hor
    cases hpart : s'.participants.lookup g with
    | none => rfl
    | some part =>
      obtain ⟨hbefore, hstays⟩ := (h.participants g part).mp hpart
      obtain hnone | hgone := hor
      · rw [hnone] at hbefore
        cases hbefore
      · exact absurd hgone hstays

theorem removeDiscoveredParticipant_removes {part : DiscoveredParticipant}
    (hpart : s.participants.lookup guid = some part) (hkey : part.pdata.guid = guid) :
    Removes (· = guid) s (s.removeDiscoveredParticipant guid part) := by
  have hhas : s.hasDiscoveredParticipant part.pdata.guid = true := by
    rw [hkey, Spdp.hasDiscoveredParticipant, hpart]
    rfl
  have heq : s.removeDiscoveredParticipant guid part =
      { participants := s.participants.filter fun entry => entry.1 ≠ guid
        sedp := { s.sedp with
          associatedParticipants := s.sedp.associatedParticipants.filter (· ≠ guid) } } := by
    unfold Spdp.removeDiscoveredParticipant Spdp.disassociate
    rw [hhas, hkey]
  rw [heq]
  refine ⟨fun g part' => ?_, fun g => by simp, rfl, rfl⟩
  rw [lookup_erase]
  by_cases hg : g = guid
  · simp [hg]
  · simp [hg]

/-- The lease of the participant is over. -/
def Over (clock : GUID → Int) (s : Spdp) (g : GUID) : Prop :=
  ∃ part, s.participants.lookup g = some part ∧ part.expired (clock g)

theorem removeExpired_removes (guid : GUID) (clock : GUID → Int) (hkeyed : Keyed s) :
    Removes (fun g => g = guid ∧ Over clock s guid) s (s.removeExpired clock guid) := by
  unfold Spdp.removeExpired
  cases hpart : s.participants.lookup guid with
  | none => exact ⟨by simp [Over, hpart], by simp [Over, hpart], rfl, rfl⟩
  | some part =>
    simp only
    split_ifs with hexpired
    · have hremoves := removeDiscoveredParticipant_removes hpart (hkeyed guid part hpart)
      have hover : Over clock s guid := ⟨part, hpart, hexpired⟩
      exact ⟨by simpa [hover] using hremoves.participants, by simpa [hover] using hremoves.associated,
        hremoves.queue, hremoves.ignored⟩
    · have hlasts : ¬ Over clock s guid := by
        rintro ⟨part', hpart', hexpired'⟩
        rw [hpart] at hpart'
        cases hpart'
        exact hexpired hexpired'
      exact ⟨by simp [hlasts], by simp [hlasts], rfl, rfl⟩

theorem removeExpired_loop (clock : GUID → Int) (guids : List GUID) (hkeyed : Keyed s) :
    Removes (fun g => g ∈ guids ∧ Over clock s g) s (guids.foldl (Spdp.removeExpired clock) s) := by
  induction guids generalizing s with
  | nil => exact ⟨by simp, by simp, rfl, rfl⟩
  | cons guid guids ih =>
    have hfirst := removeExpired_removes guid clock hkeyed
    have hrest := ih (hfirst.keyed hkeyed)
    -- A later turn finds a participant expired in the state it starts from.
    have hover : ∀ g, Over clock (s.removeExpired clock guid) g ↔
        Over clock s g ∧ ¬ (g = guid ∧ Over clock s guid) := by
      intro g
      constructor
      · rintro ⟨part, hpart, hexpired⟩
        obtain ⟨hbefore, hstays⟩ := (hfirst.participants g part).mp hpart
        exact ⟨⟨part, hbefore, hexpired⟩, hstays⟩
      · rintro ⟨⟨part, hpart, hexpired⟩, hstays⟩
        exact ⟨part, (hfirst.participants g part).mpr ⟨hpart, hstays⟩, hexpired⟩
    have hgone : ∀ g, (¬ (g = guid ∧ Over clock s guid) ∧
        ¬ (g ∈ guids ∧ Over clock (s.removeExpired clock guid) g)) ↔
          ¬ (g ∈ guid :: guids ∧ Over clock s g) := by
      intro g
      rw [hover, List.mem_cons]
      by_cases hg : g = guid
      · subst hg
        tauto
      · tauto
    refine ⟨fun g part => ?_, fun g => ?_, hrest.queue.trans hfirst.queue,
      hrest.ignored.trans hfirst.ignored⟩
    · rw [List.foldl_cons, hrest.participants, hfirst.participants, and_assoc, hgone]
    · rw [List.foldl_cons, hrest.associated, hfirst.associated, and_assoc, hgone]

theorem removeExpiredParticipants_removes (clock : GUID → Int) (hkeyed : Keyed s) :
    Removes (Over clock s) s (s.removeExpiredParticipants clock) := by
  have hloop := removeExpired_loop clock (s.participants.map Prod.fst) hkeyed
  have hover : ∀ g, g ∈ s.participants.map Prod.fst ∧ Over clock s g ↔ Over clock s g := by
    intro g
    refine ⟨And.right, fun h => ⟨?_, h⟩⟩
    obtain ⟨part, hpart, -⟩ := h
    exact List.mem_map.mpr ⟨(g, part), mem_of_lookup hpart, rfl⟩
  refine ⟨fun g part => ?_, fun g => ?_, hloop.queue, hloop.ignored⟩
  · rw [← hover]
    exact hloop.participants g part
  · rw [← hover]
    exact hloop.associated g

end

variable {time : Int} {pdata : ParticipantData}

section

theorem dataReceived_cases (time : Int) (m : Message) (s : Spdp) :
    ((∀ pdata, m.pdata = some pdata → s.sedp.ignoring pdata.guid = true) ∧ s.dataReceived time m = s) ∨
    ∃ pdata, m.pdata = some pdata ∧ s.sedp.ignoring pdata.guid = false ∧
      ((s.participants.lookup pdata.guid = none ∧ s.dataReceived time m =
          { participants := s.participants ++ [(pdata.guid, ⟨pdata, time⟩)]
            sedp := s.sedp.associate pdata }) ∨
        ∃ part, s.participants.lookup pdata.guid = some part ∧
          ((disposed m.inlineQos = true ∧
              s.dataReceived time m = s.removeDiscoveredParticipant pdata.guid part) ∨
            (disposed m.inlineQos = false ∧ s.dataReceived time m =
              { s with participants := s.participants.map fun entry =>
                  if entry.1 = pdata.guid then (pdata.guid, ⟨pdata, time⟩) else entry }))) := by
  unfold Spdp.dataReceived
  cases hpdata : m.pdata with
  | none => exact .inl ⟨nofun, rfl⟩
  | some pdata =>
    simp only
    cases hignoring : s.sedp.ignoring pdata.guid with
    | true => exact .inl ⟨fun _ h => by cases h; exact hignoring, by rw [if_pos rfl]⟩
    | false =>
      rw [if_neg Bool.false_ne_true]
      refine .inr ⟨pdata, rfl, hignoring, ?_⟩
      cases hpart : s.participants.lookup pdata.guid with
      | none => exact .inl ⟨rfl, rfl⟩
      | some part =>
        refine .inr ⟨part, rfl, ?_⟩
        cases hdisposed : disposed m.inlineQos with
        | true =>
          have hlength : m.inlineQos.length ≠ 0 := by
            intro hzero
            rw [List.length_eq_zero_iff.mp hzero] at hdisposed
            cases hdisposed
          exact .inl ⟨rfl, by simp only [hlength, ne_eq, not_false_eq_true, and_self, if_true]⟩
        | false => exact .inr ⟨rfl, by simp⟩

theorem lookup_added (hnone : s.participants.lookup pdata.guid = none) :
    (s.participants ++ [(pdata.guid, (⟨pdata, time⟩ : DiscoveredParticipant))]).lookup g =
      if g = pdata.guid then some ⟨pdata, time⟩ else s.participants.lookup g :=
  lookup_concat hnone

theorem lookup_renewed {part : DiscoveredParticipant}
    (hpart : s.participants.lookup pdata.guid = some part) : (s.participants.map fun entry =>
        if entry.1 = pdata.guid then (pdata.guid, (⟨pdata, time⟩ : DiscoveredParticipant)) else entry).lookup g =
      if g = pdata.guid then some ⟨pdata, time⟩ else s.participants.lookup g := by
  rw [lookup_replace, hpart]
  rfl

theorem step_keyed (hkeyed : Keyed s) (event : Event) : Keyed (s.step event) := by
  cases event with
  | received time m =>
    obtain ⟨-, heq⟩ | ⟨pdata, -, -, ⟨hnone, heq⟩ | ⟨part, hpart, ⟨-, heq⟩ | ⟨-, heq⟩⟩⟩ :=
      dataReceived_cases time m s
    · rw [Spdp.step, heq]
      exact hkeyed
    · intro g part hfound
      rw [Spdp.step, heq, lookup_added hnone] at hfound
      split_ifs at hfound with hg
      · cases hfound
        exact hg.symm
      · exact hkeyed g part hfound
    · rw [Spdp.step, heq]
      exact (removeDiscoveredParticipant_removes hpart (hkeyed _ part hpart)).keyed hkeyed
    · intro g part' hfound
      rw [Spdp.step, heq, lookup_renewed hpart] at hfound
      split_ifs at hfound with hg
      · cases hfound
        exact hg.symm
      · exact hkeyed g part' hfound
  | tick clock => exact (removeExpiredParticipants_removes clock hkeyed).keyed hkeyed
  | svcI => exact hkeyed

theorem step_ignored (hkeyed : Keyed s) (event : Event) :
    (s.step event).sedp.ignoredGuids = s.sedp.ignoredGuids := by
  cases event with
  | received time m =>
    obtain ⟨-, heq⟩ | ⟨pdata, -, -, ⟨hnone, heq⟩ | ⟨part, hpart, ⟨-, heq⟩ | ⟨-, heq⟩⟩⟩ :=
      dataReceived_cases time m s
    · rw [Spdp.step, heq]
    · rw [Spdp.step, heq]
      rfl
    · rw [Spdp.step, heq]
      exact (removeDiscoveredParticipant_removes hpart (hkeyed _ part hpart)).ignored
    · rw [Spdp.step, heq]
  | tick clock => exact (removeExpiredParticipants_removes clock hkeyed).ignored
  | svcI =>
    unfold Spdp.step Sedp.svcI
    cases s.sedp.queue <;> rfl

end

section

/-- What was heard of a participant. -/
inductive Concern where
  | announced (time lease : Int)
  | disposed
  | expired
  deriving DecidableEq

def disposeUnregister (inlineQos : List Parameter) : Bool :=
  match statusInfo inlineQos with
  | some value => value.get 3 &&& 3 != 0
  | none => false

/-- The latest that concerns `g` after an event, from the latest before it. -/
def concern (g : GUID) (latest : Option Concern) : Event → Option Concern
  | .received time m =>
    match m.pdata with
    | none => latest
    | some pdata =>
      if pdata.guid = g then
        some (if disposeUnregister m.inlineQos then .disposed else .announced time pdata.leaseSeconds)
      else latest
  | .tick clock =>
    match latest with
    | some (.announced time lease) =>
      if time < clock g - microseconds lease then some .expired else latest
    | _ => latest
  | .svcI => latest

/-- The latest event that concerns `g`. -/
def latest (g : GUID) (events : List Event) : Option Concern := events.foldl (concern g) none

theorem latest_concat (g : GUID) (events : List Event) (event : Event) :
    latest g (events ++ [event]) = concern g (latest g events) event := by
  rw [latest, List.foldl_append]
  rfl

/-- A dispose or unregister message is one that disposes of a participant in the table. -/
def Timely (s : Spdp) : Event → Prop
  | .received _ m => ∀ pdata, m.pdata = some pdata → s.sedp.ignoring pdata.guid = false →
      disposeUnregister m.inlineQos = true →
        s.hasDiscoveredParticipant pdata.guid = true ∧ disposed m.inlineQos = true
  | .tick _ => True
  | .svcI => True

/-- An entry is what the latest announcement says. -/
def Agrees : Option Concern → Option DiscoveredParticipant → Prop
  | some (.announced time lease), part? =>
    ∃ part, part? = some part ∧ part.lastSeen = time ∧ part.pdata.leaseSeconds = lease
  | some .disposed, part? => part? = none
  | some .expired, part? => part? = none
  | none, part? => part? = none

structure Follows (ignored : List GUID) (events : List Event) (s : Spdp) : Prop where
  keyed : Keyed s
  ignores : s.sedp.ignoredGuids = ignored
  agrees : ∀ g, g ∉ ignored → Agrees (latest g events) (s.participants.lookup g)

theorem disposeUnregister_of_disposed {inlineQos : List Parameter} (h : disposed inlineQos = true) :
    disposeUnregister inlineQos = true := by
  unfold disposed at h
  unfold disposeUnregister
  cases hinfo : statusInfo inlineQos with
  | none =>
    rw [hinfo] at h
    cases h
  | some value =>
    rw [hinfo] at h
    have hbit : value[3] &&& 1 ≠ 0 := by simpa using h
    have hbits : value[3] &&& 3 ≠ 0 := by
      intro hzero
      apply hbit
      calc value[3] &&& 1 = value[3] &&& 3 &&& 1 := by rw [BitVec.and_assoc]; rfl
        _ = 0 := by rw [hzero]; rfl
    exact bne_iff_ne.mpr hbits

theorem received_other {m : Message} (hkeyed : Keyed s)
    (hother : ∀ pdata, m.pdata = some pdata → pdata.guid ≠ g) :
    (s.dataReceived time m).participants.lookup g = s.participants.lookup g := by
  obtain ⟨-, heq⟩ | ⟨pdata, hpdata, -, ⟨hnone, heq⟩ | ⟨part, hpart, ⟨-, heq⟩ | ⟨-, heq⟩⟩⟩ :=
    dataReceived_cases time m s
  · rw [heq]
  · rw [heq, lookup_added hnone, if_neg (hother pdata hpdata).symm]
  · have hremoves := removeDiscoveredParticipant_removes hpart (hkeyed _ part hpart)
    rw [heq]
    apply Option.ext
    intro part'
    rw [hremoves.participants, and_iff_left (hother pdata hpdata).symm]
  · rw [heq, lookup_renewed hpart, if_neg (hother pdata hpdata).symm]

theorem received_agrees {m : Message} (hkeyed : Keyed s) (hpdata : m.pdata = some pdata)
    (hignoring : s.sedp.ignoring pdata.guid = false) (htimely : Timely s (.received time m)) :
    Agrees (some (if disposeUnregister m.inlineQos then .disposed
        else .announced time pdata.leaseSeconds))
      ((s.dataReceived time m).participants.lookup pdata.guid) := by
  have hdispose := htimely pdata hpdata hignoring
  obtain ⟨hall, -⟩ | ⟨pdata', hpdata', -, hcases⟩ := dataReceived_cases time m s
  · rw [hall pdata hpdata] at hignoring
    cases hignoring
  obtain rfl : pdata = pdata' := by
    rw [hpdata] at hpdata'
    exact Option.some.inj hpdata'
  obtain ⟨hnone, heq⟩ | ⟨part, hpart, ⟨hdisposed, heq⟩ | ⟨hdisposed, heq⟩⟩ := hcases
  · -- A dispose message would be about a participant that is not in the table.
    have hannounced : ¬ disposeUnregister m.inlineQos = true := by
      intro h
      have hhas := (hdispose h).1
      rw [Spdp.hasDiscoveredParticipant, hnone] at hhas
      cases hhas
    rw [if_neg hannounced, heq, lookup_added hnone, if_pos rfl]
    exact ⟨_, rfl, rfl, rfl⟩
  · have hremoves := removeDiscoveredParticipant_removes hpart (hkeyed _ part hpart)
    rw [if_pos (disposeUnregister_of_disposed hdisposed), heq]
    exact hremoves.lookup_none.mpr (.inr rfl)
  · have hannounced : ¬ disposeUnregister m.inlineQos = true := by
      intro h
      rw [(hdispose h).2] at hdisposed
      cases hdisposed
    rw [if_neg hannounced, heq, lookup_renewed hpart, if_pos rfl]
    exact ⟨_, rfl, rfl, rfl⟩

/-- A tick takes out the entries whose lease is over, by the announcement they are from. -/
theorem tick_agrees {heard : Option Concern} (hkeyed : Keyed s)
    (h : Agrees heard (s.participants.lookup g)) :
    Agrees (concern g heard (.tick clock)) ((s.removeExpiredParticipants clock).participants.lookup g) := by
  have hremoves := removeExpiredParticipants_removes clock hkeyed
  have habsent : s.participants.lookup g = none →
      (s.removeExpiredParticipants clock).participants.lookup g = none :=
    fun hnone => hremoves.lookup_none.mpr (.inl hnone)
  match heard, h with
  | none, h => exact habsent h
  | some .disposed, h => exact habsent h
  | some .expired, h => exact habsent h
  | some (.announced time lease), ⟨part, hpart, htime, hlease⟩ =>
    have hover : Over clock s g ↔ time < clock g - microseconds lease := by
      rw [← htime, ← hlease]
      constructor
      · rintro ⟨part', hpart', hexpired⟩
        rw [hpart] at hpart'
        cases hpart'
        exact hexpired
      · exact fun hexpired => ⟨part, hpart, hexpired⟩
    simp only [concern]
    split_ifs with hexpired
    · exact hremoves.lookup_none.mpr (.inr (hover.mpr hexpired))
    · exact ⟨part, (hremoves.participants g part).mpr ⟨hpart, hexpired ∘ hover.mp⟩, htime, hlease⟩

theorem Follows.step {ignored : List GUID} {events : List Event} (h : Follows ignored events s)
    {event : Event} (htimely : Timely s event) :
    Follows ignored (events ++ [event]) (s.step event) := by
  refine ⟨step_keyed h.keyed event, (step_ignored h.keyed event).trans h.ignores, ?_⟩
  intro g hg
  rw [latest_concat]
  have hagrees := h.agrees g hg
  cases event with
  | received time m =>
    rw [Spdp.step]
    by_cases hpdata : ∃ pdata, m.pdata = some pdata ∧ pdata.guid = g
    · obtain ⟨pdata, hpdata, rfl⟩ := hpdata
      have hignoring : s.sedp.ignoring pdata.guid = false := by
        rw [Sedp.ignoring, h.ignores]
        simpa using hg
      simp only [concern, hpdata, if_true]
      exact received_agrees h.keyed hpdata hignoring htimely
    · have hother : ∀ pdata, m.pdata = some pdata → pdata.guid ≠ g :=
        fun pdata hpdata' hguid => hpdata ⟨pdata, hpdata', hguid⟩
      rw [received_other h.keyed hother]
      simp only [concern]
      cases hpdata' : m.pdata with
      | none => exact hagrees
      | some pdata =>
        simp only
        rw [if_neg (hother pdata hpdata')]
        exact hagrees
  | tick clock => exact tick_agrees h.keyed hagrees
  | svcI => exact hagrees

/-- A step of a participant whose dispose messages are timely. -/
def Performs (s : Spdp) (event : Event) (s' : Spdp) : Prop := s.step event = s' ∧ Timely s event

theorem run_follows {ignored : List GUID} {events : List Event}
    (run : Run (create ignored) Performs events s) : Follows ignored events s := by
  have base : Follows ignored [] (create ignored) := ⟨by simp [Keyed, create], rfl, fun _ _ => rfl⟩
  apply run.history (Follows ignored) base
  rintro events s event after h ⟨rfl, htimely⟩
  exact h.step htimely

/-- **The table holds the participants of which an announcement is the latest that was heard**,
if dispose and unregister messages all dispose of a participant that is in the table. -/
theorem in_table_iff_announced {ignored : List GUID} {events : List Event}
    (run : Run (create ignored) Performs events s) (hg : g ∉ ignored) :
    s.hasDiscoveredParticipant g = true ↔
      ∃ time lease, latest g events = some (.announced time lease) := by
  have hagrees := (run_follows run).agrees g hg
  rw [Spdp.hasDiscoveredParticipant]
  cases hlatest : latest g events with
  | none =>
    rw [hlatest] at hagrees
    change s.participants.lookup g = none at hagrees
    simp [hagrees]
  | some heard =>
    rw [hlatest] at hagrees
    cases heard with
    | announced time lease =>
      obtain ⟨part, hpart, -⟩ := hagrees
      simp [hpart]
    | disposed =>
      change s.participants.lookup g = none at hagrees
      simp [hagrees]
    | expired =>
      change s.participants.lookup g = none at hagrees
      simp [hagrees]

end

section

def peer : GuidPrefix := Vector.replicate 12 1

def announcement : Message := ⟨[], [.participantGuid (participantGuid peer)], Vector.replicate 12 0⟩

/-- What `dispose_unregister` sends. -/
def disposal : Message :=
  ⟨[.statusInfo #v[0, 0, 0, 3]], [.participantGuid (participantGuid peer)], Vector.replicate 12 0⟩

theorem announcement_timely (s : Spdp) (time : Int) : Timely s (.received time announcement) := by
  intro pdata _ _ hdispose
  cases hdispose

theorem disposal_timely (h : s.hasDiscoveredParticipant (participantGuid peer) = true) :
    Timely s (.received time disposal) := by
  intro pdata hpdata _ _
  cases hpdata
  exact ⟨h, by decide⟩

/-- A participant that comes, leaves, comes again and is then not heard of any more. -/
theorem comes_and_leaves :
    ∃ s, Run (create []) Performs
        [.received 0 announcement, .received 1 disposal, .received 2 announcement,
          .tick fun _ => 200000000] s ∧
      (s.hasDiscoveredParticipant (participantGuid peer) = true ↔ ∃ time lease,
        latest (participantGuid peer)
          [.received 0 announcement, .received 1 disposal, .received 2 announcement,
            .tick fun _ => 200000000] = some (.announced time lease)) := by
  have run : Run (create []) Performs
      [.received 0 announcement, .received 1 disposal, .received 2 announcement,
        .tick fun _ => 200000000] _ :=
    (((Run.start.next ⟨rfl, announcement_timely _ _⟩).next
      ⟨rfl, disposal_timely (by decide)⟩).next
      ⟨rfl, announcement_timely _ _⟩).next ⟨rfl, trivial⟩
  exact ⟨_, run, in_table_iff_announced run (by decide)⟩

/-- A dispose message that comes twice adds the participant again. -/
theorem disposal_adds : ¬ ∀ (ignored : List GUID) (events : List Event) (g : GUID), g ∉ ignored →
    ((events.foldl Spdp.step (create ignored)).hasDiscoveredParticipant g = true ↔
      ∃ time lease, latest g events = some (.announced time lease)) := by
  intro claim
  have hclaim := claim [] [.received 0 announcement, .received 1 disposal, .received 2 disposal]
    (participantGuid peer) (by decide)
  have htable : ([.received 0 announcement, .received 1 disposal, .received 2 disposal].foldl
      Spdp.step (create [])).hasDiscoveredParticipant (participantGuid peer) = true := by decide
  obtain ⟨time, lease, hlatest⟩ := hclaim.mp htable
  cases hlatest

end

end OpenDDS.Guarantees.ParticipantTable
