import OpenDDS.Library.Run
import OpenDDS.Source.InfoRepoAssociations

/-!
# Topics are not referred to after they are deleted

Runs of the calls that add and remove the objects of a domain. A removed topic stays while it is in
use, but what it points to does not wait for it: its description is deleted with the last topic that
is not removed, its creator with `remove_participant`. Without an update manager
`remove_all_dependents` does not remove the topics of the participant at all. A publication whose
client was not reached keeps a subscription that does not know of it. `Clean` leaves out the
removals that run into one of these.
-/
namespace OpenDDS.Guarantees.TopicReferences

open Library Source.QosMatching Source.InfoRepo
open Source.QosHelper (durationInfinite)

variable {δ : Type} {s s' : Domain δ}

inductive Call (δ : Type) where
  | addParticipant (isOwner : Bool)
  | removeParticipant (um : Bool) (p : Nat)
  | addTopic (p : Nat) (name dataTypeName : String)
  | removeTopic (p t : Nat)
  | addEndpoint (k : Kind) (p t : Nat) (qos : EndpointQos δ) (reached : Nat → Bool)
  | removeEndpoint (k : Kind) (p e : Nat)

variable (wildMatch : List Char → List Char → Bool)

def perform (s : Domain δ) : Call δ → Option (Domain δ)
  | .addParticipant isOwner => some (s.addParticipant isOwner)
  | .removeParticipant um p => s.removeParticipant um p
  | .addTopic p name dataTypeName => some (s.addTopic p name dataTypeName)
  | .removeTopic p t => s.removeTopic p t
  | .addEndpoint k p t qos reached => s.addEndpoint wildMatch k p t qos reached
  | .removeEndpoint k p e => s.removeEndpoint k p e

/-- What a call must find, so that it leaves no topic, description, publication or subscription
behind that refers to a deleted topic, description or participant. -/
def CleanTopics (s : Domain δ) : Call δ → Prop
  | .removeParticipant um p => HandedOver um p s
  | .removeTopic _ t => LastIdle t s
  | _ => True

/-- A subscription that the call removes lists the publications that list it, apart from those that
the call removes as well. -/
def CleanAssociations (s : Domain δ) : Call δ → Prop
  | .removeEndpoint .reader p r => ∀ x, s.endpoint .reader r = some x → x.participant = p →
      ∀ w, s.Answers w r
  | .removeParticipant _ p => ∀ r x, s.endpoint .reader r = some x → x.participant = p →
      ∀ w y, s.endpoint .writer w = some y → y.participant ≠ p → s.Answers w r
  | _ => True

/-- What a call must find, so that it leaves nothing behind that refers to a deleted object. -/
def Clean (s : Domain δ) (call : Call δ) : Prop := CleanTopics s call ∧ CleanAssociations s call

def Reachable (t : Nat) (s : Domain δ) : Prop :=
  t ∈ s.registry.idToTopicMap ∨
  (∃ d ∈ s.registry.topicDescriptions, ∃ D ∈ s.registry.descriptions d, t ∈ D.topics) ∨
  ∃ k, ∃ entry ∈ s.endpoints k, entry.2.topic = t

/-- The topics that can be reached exist, with their description and their creator, every
description has a topic, and both ends of an association exist. -/
structure Consistent (s : Domain δ) : Prop where
  topic : ∀ t, Reachable t s → ∃ T, s.registry.topics t = some T ∧
    T.description ∈ s.registry.topicDescriptions ∧ (s.registry.descriptions T.description).isSome ∧
    (s.registry.participants T.creator).isSome
  description : ∀ d ∈ s.registry.topicDescriptions, ∃ D, s.registry.descriptions d = some D ∧
    D.topics ≠ []
  association : ∀ k e e', e' ∈ s.associations k e →
    (s.endpoint k e).isSome ∧ (s.endpoint k.other e').isSome

/-- Nothing in `s'` refers to the participant or to what it owned in `s`. -/
structure Forgotten (p : Nat) (s s' : Domain δ) : Prop where
  topic : ∀ t T, s'.registry.topics t = some T → T.creator ≠ p ∧
    ∀ k, ∀ e ∈ T.refs k, ∀ entry ∈ s.endpoints k, entry.1 = e → entry.2.participant ≠ p
  description : ∀ d D, s'.registry.descriptions d = some D →
    (∀ t ∈ D.topics, ∀ T, s.registry.topics t = some T → T.creator ≠ p) ∧
    ∀ e ∈ D.subscriptionRefs, ∀ entry ∈ s.endpoints .reader, entry.1 = e → entry.2.participant ≠ p
  endpoint : ∀ k, ∀ entry ∈ s'.endpoints k, entry.2.participant ≠ p ∧
    (∀ T, s.registry.topics entry.2.topic = some T → T.creator ≠ p) ∧
    ∀ e' ∈ s'.associations k entry.1, ∀ other ∈ s.endpoints k.other, other.1 = e' →
      other.2.participant ≠ p

theorem consistent_of_sound (h : Sound s) (ha : Associated s.found s.associations) :
    Consistent s := by
  have hlinked := h.linked
  refine ⟨?_, ?_, ha.ends⟩
  · intro t ht
    obtain ⟨T, hT⟩ : ∃ T, s.registry.topics t = some T := by
      rcases ht with hmem | ⟨d, -, D, hD, hmem⟩ | ⟨k, ⟨e, x⟩, hmem, rfl⟩
      · exact Option.isSome_iff_exists.mp ((hlinked.mapped t).mp hmem)
      · obtain ⟨T, hT, -⟩ := (hlinked.topics d D hD).2 t hmem
        exact ⟨T, hT⟩
      · obtain ⟨-, T, hT, -⟩ := hlinked.endpoint k e x ((mem_endpoints h).mp hmem)
        exact ⟨T, hT⟩
    obtain ⟨D, hD, -⟩ := hlinked.description t T hT
    obtain ⟨P, hP, -⟩ := hlinked.creator t T hT
    have hsome := Option.isSome_iff_exists.mpr ⟨D, hD⟩
    exact ⟨T, hT, (hlinked.described _).mpr hsome, hsome, Option.isSome_iff_exists.mpr ⟨P, hP⟩⟩
  · intro d hd
    obtain ⟨D, hD⟩ := Option.isSome_iff_exists.mp ((hlinked.described d).mp hd)
    exact ⟨D, hD, (hlinked.topics d D hD).1⟩

theorem forgotten_of_sound {p : Nat} (h : Sound s) (h' : Sound s')
    (ha' : Associated s'.found s'.associations) (hfound : s'.found = s.foundOthers p)
    (hfewer : Fewer s.registry s'.registry)
    (hcreator : ∀ t T, s'.registry.topics t = some T → T.creator ≠ p) : Forgotten p s s' := by
  -- What is found afterwards was there before and is not the participant's.
  have hothers : ∀ k e x, s'.found k e = some x → x.participant ≠ p ∧
      ∀ entry ∈ s.endpoints k, entry.1 = e → entry.2.participant ≠ p := by
    rintro k e x hx
    rw [hfound, foundOthers_eq_some] at hx
    refine ⟨hx.2, ?_⟩
    rintro ⟨e', y⟩ hmem rfl
    have hy := (mem_endpoints h).mp hmem
    rw [hx.1] at hy
    cases hy
    exact hx.2
  have hbefore : ∀ t T', s'.registry.topics t = some T' → ∀ T, s.registry.topics t = some T →
      T.creator ≠ p := by
    intro t T' hT' T hT
    obtain ⟨T₀, hT₀, hc, -⟩ := hfewer t T' hT'
    rw [hT] at hT₀
    cases hT₀
    rw [hc]
    exact hcreator t T' hT'
  refine ⟨fun t T hT => ⟨hcreator t T hT, fun k e he => ?_⟩, fun d D hD => ⟨fun t ht => ?_, fun e he => ?_⟩,
    fun k entry hmem => ?_⟩
  · obtain ⟨x, hx, -⟩ := h'.linked.ref t T k e hT he
    exact (hothers k e x hx).2
  · obtain ⟨T', hT', -⟩ := (h'.linked.topics d D hD).2 t ht
    exact hbefore t T' hT'
  · obtain ⟨x, -, hx, -⟩ := h'.linked.subscriptions d D hD e he
    exact (hothers .reader e x hx).2
  · have hx := (mem_endpoints h').mp hmem
    obtain ⟨-, T', hT', -⟩ := h'.linked.endpoint k entry.1 entry.2 hx
    refine ⟨(hothers k entry.1 entry.2 hx).1, hbefore _ T' hT', fun e' he' => ?_⟩
    obtain ⟨y, hy⟩ := Option.isSome_iff_exists.mp (ha'.ends k entry.1 e' he').2
    exact (hothers k.other e' y hy).2

theorem perform_sound (h : Sound s) (call : Call δ) (hclean : CleanTopics s call)
    (hstep : perform wildMatch s call = some s') : Sound s' := by
  cases call with
  | addParticipant isOwner =>
    cases hstep
    exact addParticipant_sound isOwner h
  | addTopic p name dataTypeName =>
    cases hstep
    exact addTopic_sound p name dataTypeName h
  | addEndpoint k p t qos reached => exact addEndpoint_sound k wildMatch reached t qos h hstep
  | removeEndpoint k p e => exact removeEndpoint_sound h hstep
  | removeTopic p t =>
    obtain ⟨s₁, heq, h₁, -⟩ := removeTopic_sound p t h hclean
    cases heq.symm.trans hstep
    exact h₁
  | removeParticipant um p => exact (removeParticipant_sound h hclean hstep).1

theorem perform_associated (h : Sound s) (ha : Associated s.found s.associations) (call : Call δ)
    (hclean : Clean s call) :
    ∃ s', perform wildMatch s call = some s' ∧ Associated s'.found s'.associations := by
  obtain ⟨hclean, hanswers⟩ := hclean
  cases call with
  | addParticipant isOwner => exact ⟨_, rfl, ha⟩
  | addTopic p name dataTypeName => exact ⟨_, rfl, ha⟩
  | addEndpoint k p t qos reached => exact addEndpoint_associated k wildMatch reached t qos h ha
  | removeEndpoint k p e =>
    cases k with
    | writer => exact removeEndpoint_associated h ha nofun
    | reader => exact removeEndpoint_associated h ha fun _ => hanswers
  | removeTopic p t => exact removeTopic_associated h hclean ha
  | removeParticipant um p => exact removeParticipant_associated h ha hclean hanswers

variable {wildMatch} {calls : List (Call δ)}

theorem run_sound (run : Run Domain.create
      (fun s call s' => perform wildMatch s call = some s' ∧ CleanTopics s call) calls s) : Sound s := by
  refine run.invariant Sound create_sound ?_
  rintro s call s' h ⟨hstep, hclean⟩
  exact perform_sound wildMatch h call hclean hstep

theorem run_associated (run : Run Domain.create
      (fun s call s' => perform wildMatch s call = some s' ∧ Clean s call) calls s) :
    Sound s ∧ Associated s.found s.associations := by
  refine run.invariant (fun s => Sound s ∧ Associated s.found s.associations)
    ⟨create_sound, ⟨nofun, nofun⟩⟩ ?_
  rintro s call s' ⟨h, ha⟩ ⟨hstep, hclean⟩
  obtain ⟨s₁, heq, ha₁⟩ := perform_associated wildMatch h ha call hclean
  cases heq.symm.trans hstep
  exact ⟨perform_sound wildMatch h call hclean.1 hstep, ha₁⟩

/-- In a run of clean calls the topics that can be reached are there with what they refer to. The
next clean call does not touch a deleted object, and `remove_participant` leaves no reference. -/
theorem topics_consistent (run : Run Domain.create
      (fun s call s' => perform wildMatch s call = some s' ∧ Clean s call) calls s) :
    Consistent s ∧ ∀ call, Clean s call → ∃ s', perform wildMatch s call = some s' ∧ Consistent s' ∧
      ∀ um p, call = .removeParticipant um p → Forgotten p s s' := by
  obtain ⟨h, ha⟩ := run_associated run
  refine ⟨consistent_of_sound h ha, fun call hclean => ?_⟩
  obtain ⟨s', heq, ha'⟩ := perform_associated wildMatch h ha call hclean
  have h' := perform_sound wildMatch h call hclean.1 heq
  refine ⟨s', heq, consistent_of_sound h' ha', ?_⟩
  rintro um p rfl
  obtain ⟨-, hfound, hfewer, hcreator⟩ := removeParticipant_sound h hclean.1 heq
  exact forgotten_of_sound h h' ha' hfound hfewer hcreator

/-- References are mutual, and a topic that was removed is there only while it is used. -/
theorem references_mutual (run : Run Domain.create
      (fun s call s' => perform wildMatch s call = some s' ∧ CleanTopics s call) calls s) :
    (∀ k e x, s.found k e = some x → ∃ T, s.registry.topics x.topic = some T ∧ e ∈ T.refs k) ∧
    (∀ t T, s.registry.topics t = some T →
      (∀ k, ∀ e ∈ T.refs k, ∃ x, s.found k e = some x ∧ x.topic = t) ∧
      (T.removed = true → ∃ k, T.refs k ≠ []) ∧
      ∃ P, s.registry.participants T.creator = some P ∧ (t ∈ P.topicRefs ↔ T.removed = false)) ∧
    ∀ p P t, s.registry.participants p = some P → t ∈ P.topicRefs →
      ∃ T, s.registry.topics t = some T ∧ T.creator = p := by
  have h := run_sound run
  have hlinked := h.linked
  refine ⟨fun k e x hx => (hlinked.endpoint k e x hx).2, fun t T hT => ?_, hlinked.owned⟩
  refine ⟨fun k e he => hlinked.ref t T k e hT he, fun hremoved => ?_, hlinked.creator t T hT⟩
  by_contra hnone
  have hunused : T.unused = true := unused_iff.mpr fun k => by
    by_contra hne
    exact hnone ⟨k, hne⟩
  rw [h.used t T hT hremoved] at hunused
  cases hunused

section

def endpointQos : EndpointQos Unit where
  data := ⟨.reliable, .volatile, .automatic, durationInfinite, durationInfinite, ⟨0, 0⟩, .shared, ()⟩
  group := ⟨.instancePresentation, false, false, [], ()⟩
  transports := ["tcp"]

/-- A subscription of the participant 2 on the topic 1 of the participant 0. -/
def sharing : List (Call Unit) :=
  [.addParticipant true, .addTopic 0 "Square" "Shape", .addParticipant true,
    .addEndpoint .reader 2 1 endpointQos fun _ => true]

/-- A publication of the participant 0, which the subscription is associated with. -/
def publishing : Call Unit := .addEndpoint .writer 0 1 endpointQos fun _ => true

/-- Names without wildcards. -/
def sameName (name pattern : List Char) : Bool := name == pattern

def afterCalls (calls : List (Call Unit)) : Domain Unit :=
  (calls.foldlM (perform sameName) Domain.create).getD Domain.create

theorem sharing_run : Run Domain.create
    (fun s call s' => perform sameName s call = some s' ∧ Clean s call) sharing
    (afterCalls sharing) :=
  (((Run.start.next ⟨(rfl : perform sameName .create (.addParticipant true) = some _), trivial, trivial⟩).next
    ⟨(rfl : perform sameName _ (.addTopic 0 "Square" "Shape") = some _), trivial, trivial⟩).next
    ⟨(rfl : perform sameName _ (.addParticipant true) = some _), trivial, trivial⟩).next
    ⟨(rfl : perform sameName _ (.addEndpoint .reader 2 1 endpointQos fun _ => true) = some _),
      trivial, trivial⟩

theorem user_leaves :
    (afterCalls (sharing ++ [publishing])).associations .writer 4 = [3] ∧
    Clean (afterCalls (sharing ++ [publishing])) (.removeParticipant true 2) ∧
    ∃ s', perform sameName (afterCalls (sharing ++ [publishing])) (.removeParticipant true 2) = some s' ∧
      Consistent s' ∧ Forgotten 2 (afterCalls (sharing ++ [publishing])) s' := by
  have hclean : Clean (afterCalls (sharing ++ [publishing])) (.removeParticipant true 2) := by
    refine ⟨⟨.inl rfl, fun k => ?_, ?_⟩, ?_⟩
    · cases k with
      | writer => decide
      | reader => decide
    · have hcreated : ∀ d ∈ (afterCalls (sharing ++ [publishing])).registry.topicDescriptions,
          ∀ D ∈ (afterCalls (sharing ++ [publishing])).registry.descriptions d,
          ∃ t ∈ D.topics, ∀ T ∈ (afterCalls (sharing ++ [publishing])).registry.topics t,
            T.creator ≠ 2 := by decide
      intro d hd D hD hall
      obtain ⟨t, ht, hne⟩ := hcreated d hd D hD
      obtain ⟨T, hT, hc⟩ := hall t ht
      exact absurd hc (hne T hT)
    · intro r x hx _ w y hy _ _
      have hr := List.mem_map_of_mem (f := Prod.fst) (AssociationList.mem_of_lookup hx)
      have hw := List.mem_map_of_mem (f := Prod.fst) (AssociationList.mem_of_lookup hy)
      obtain rfl : r = 3 := List.mem_singleton.mp hr
      obtain rfl : w = 4 := List.mem_singleton.mp hw
      decide
  have run : Run Domain.create (fun s call s' => perform sameName s call = some s' ∧ Clean s call)
      (sharing ++ [publishing]) (afterCalls (sharing ++ [publishing])) :=
    sharing_run.next ⟨(rfl : perform sameName _ publishing = some _), trivial, trivial⟩
  obtain ⟨s', hstep, hconsistent, hforgotten⟩ := (topics_consistent run).2 _ hclean
  exact ⟨rfl, hclean, s', hstep, hconsistent, hforgotten true 2 rfl⟩

theorem references_mutual_sharing :
    ∃ T, (afterCalls sharing).registry.topics 1 = some T ∧ 3 ∈ T.refs .reader :=
  (references_mutual (sharing_run.imp fun _ _ _ h => ⟨h.1, h.2.1⟩)).1 .reader 3 ⟨2, 1, endpointQos⟩ rfl

def creatorLeft : List (Call Unit) := sharing ++ [.removeParticipant true 0]

/-- The creator leaves while its topic is in use: the topic stays without its creator. -/
theorem creator_dangles : ¬ ∀ calls, ∀ s : Domain Unit,
    Run Domain.create (fun s call s' => perform sameName s call = some s') calls s → Consistent s := by
  intro hall
  have run : Run Domain.create (fun s call s' => perform sameName s call = some s') ([] ++ creatorLeft)
      (afterCalls creatorLeft) := Run.follow (fun _ _ _ h => h) .start rfl
  obtain ⟨T, hT, -, -, hcreator⟩ := (hall _ _ run).topic 1 (.inl (by decide))
  have hgone : ((afterCalls creatorLeft).registry.topics 1).map Topic.creator = some 0 := rfl
  rw [hT, Option.map_some, Option.some.injEq] at hgone
  rw [hgone] at hcreator
  cases hcreator

end

end OpenDDS.Guarantees.TopicReferences
