import OpenDDS.Library.AssociationList
import OpenDDS.Source.InfoRepo

/-!
# Objects refer to objects that exist

`Linked` says that every pointer of a registry points to an object, in both directions where there
are two. The publications and subscriptions are an argument: `remove_all_dependents` takes them out
one after another, long before the objects are deleted.
-/
namespace OpenDDS.Source.InfoRepo

open QosMatching

variable {δ : Type} {r r' : Registry} {E E' : Kind → Nat → Option (Endpoint δ)} {k : Kind}
  {p t d e : Nat} {P : Participant} {T : Topic} {D : Description} {x : Endpoint δ}

/-- Every pointer points to an object. -/
structure Linked (r : Registry) (E : Kind → Nat → Option (Endpoint δ)) : Prop where
  endpoint : ∀ k e x, E k e = some x → (r.participants x.participant).isSome ∧
    ∃ T, r.topics x.topic = some T ∧ e ∈ T.refs k
  ref : ∀ t T k e, r.topics t = some T → e ∈ T.refs k → ∃ x, E k e = some x ∧ x.topic = t
  mapped : ∀ t, t ∈ r.idToTopicMap ↔ (r.topics t).isSome
  creator : ∀ t T, r.topics t = some T → ∃ P, r.participants T.creator = some P ∧
    (t ∈ P.topicRefs ↔ T.removed = false)
  description : ∀ t T, r.topics t = some T → ∃ D, r.descriptions T.description = some D ∧
    (t ∈ D.topics ↔ T.removed = false) ∧ ∀ e ∈ T.refs .reader, e ∈ D.subscriptionRefs
  owned : ∀ p P t, r.participants p = some P → t ∈ P.topicRefs →
    ∃ T, r.topics t = some T ∧ T.creator = p
  described : ∀ d, d ∈ r.topicDescriptions ↔ (r.descriptions d).isSome
  topics : ∀ d D, r.descriptions d = some D → D.topics ≠ [] ∧
    ∀ t ∈ D.topics, ∃ T, r.topics t = some T ∧ T.description = d
  subscriptions : ∀ d D, r.descriptions d = some D → ∀ e ∈ D.subscriptionRefs,
    ∃ x T, E .reader e = some x ∧ r.topics x.topic = some T ∧ T.description = d

/-- A topic that is removed is there for its publications and subscriptions. -/
def Used (r : Registry) : Prop :=
  ∀ t T, r.topics t = some T → T.removed = true → T.unused = false

/-- The topics of `r'` are topics of `r`, of the same creator and description. -/
def Fewer (r r' : Registry) : Prop :=
  ∀ t T', r'.topics t = some T' → ∃ T, r.topics t = some T ∧ T.creator = T'.creator ∧
    T.description = T'.description

theorem Fewer.refl (r : Registry) : Fewer r r :=
  fun _ T hT => ⟨T, hT, rfl, rfl⟩

theorem Fewer.trans {r₁ r₂ r₃ : Registry} (h : Fewer r₁ r₂) (h' : Fewer r₂ r₃) : Fewer r₁ r₃ := by
  intro t T₃ hT₃
  obtain ⟨T₂, hT₂, hc₂, hd₂⟩ := h' t T₃ hT₃
  obtain ⟨T₁, hT₁, hc₁, hd₁⟩ := h t T₂ hT₂
  exact ⟨T₁, hT₁, hc₁.trans hc₂, hd₁.trans hd₂⟩

theorem unused_iff : T.unused = true ↔ ∀ k, T.refs k = [] := by
  constructor
  · intro h k
    simp only [Topic.unused, Bool.and_eq_true, List.isEmpty_iff] at h
    cases k with
    | writer => exact h.1
    | reader => exact h.2
  · intro h
    simp [Topic.unused, h]

/-- The objects are the same, less the references to publications and subscriptions and what is
ignored. -/
structure SameShape (r r' : Registry) : Prop where
  participants : ∀ p, (r'.participants p).map Participant.topicRefs =
    (r.participants p).map Participant.topicRefs
  topics : ∀ t, (r'.topics t).map (fun T => (T.creator, T.description, T.removed)) =
    (r.topics t).map fun T => (T.creator, T.description, T.removed)
  descriptions : ∀ d, (r'.descriptions d).map Description.topics =
    (r.descriptions d).map Description.topics
  mapped : r'.idToTopicMap = r.idToTopicMap
  described : r'.topicDescriptions = r.topicDescriptions

section

theorem map_eq_map {α β : Type} {f : α → β} {a a' : Option α} {y : α} (h : a'.map f = a.map f)
    (hy : a = some y) : ∃ y', a' = some y' ∧ f y' = f y := by
  rw [hy, Option.map_some] at h
  exact Option.map_eq_some_iff.mp h

theorem none_of_map {α β : Type} {f : α → β} {a a' : Option α} (h : a'.map f = a.map f)
    (ha : a = none) : a' = none := by
  rw [ha, Option.map_none] at h
  exact Option.map_eq_none_iff.mp h

theorem isSome_eq_of_map {α β : Type} {f : α → β} {a a' : Option α} (h : a'.map f = a.map f) :
    a'.isSome = a.isSome := by
  rw [← Option.isSome_map (f := f), h, Option.isSome_map]

theorem SameShape.topic (h : SameShape r r') (hT : r.topics t = some T) : ∃ T',
    r'.topics t = some T' ∧ T'.creator = T.creator ∧ T'.description = T.description ∧
      T'.removed = T.removed := by
  obtain ⟨T', hT', heq⟩ := map_eq_map (h.topics t) hT
  simp only [Prod.mk.injEq] at heq
  exact ⟨T', hT', heq⟩

theorem SameShape.symm (h : SameShape r r') : SameShape r' r :=
  ⟨fun p => (h.participants p).symm, fun t => (h.topics t).symm, fun d => (h.descriptions d).symm,
    h.mapped.symm, h.described.symm⟩

theorem SameShape.linked (hshape : SameShape r r') (h : Linked r E)
    (endpoint : ∀ k e x, E' k e = some x → (r'.participants x.participant).isSome ∧
      ∃ T, r'.topics x.topic = some T ∧ e ∈ T.refs k)
    (ref : ∀ t T k e, r'.topics t = some T → e ∈ T.refs k → ∃ x, E' k e = some x ∧ x.topic = t)
    (readers : ∀ t T D e, r'.topics t = some T → r'.descriptions T.description = some D →
      e ∈ T.refs .reader → e ∈ D.subscriptionRefs)
    (subscriptions : ∀ d D, r'.descriptions d = some D → ∀ e ∈ D.subscriptionRefs,
      ∃ x T, E' .reader e = some x ∧ r'.topics x.topic = some T ∧ T.description = d) :
    Linked r' E' := by
  refine ⟨endpoint, ref, fun t => ?_, fun t T' hT' => ?_, fun t T' hT' => ?_,
    fun p P' t hP' ht => ?_, fun d => ?_, fun d D' hD' => ?_, subscriptions⟩
  · rw [hshape.mapped, h.mapped, isSome_eq_of_map (hshape.topics t)]
  · obtain ⟨T, hT, hcreator, -, hremoved⟩ := hshape.symm.topic hT'
    obtain ⟨P, hP, hlisted⟩ := h.creator t T hT
    obtain ⟨P', hP', hrefs⟩ := map_eq_map (hshape.participants _) hP
    exact ⟨P', hcreator ▸ hP', by rw [hrefs, hlisted, hremoved]⟩
  · obtain ⟨T, hT, -, hdescription, hremoved⟩ := hshape.symm.topic hT'
    obtain ⟨D, hD, hlisted, -⟩ := h.description t T hT
    obtain ⟨D', hD', htopics⟩ := map_eq_map (hshape.descriptions _) hD
    rw [hdescription] at hD'
    exact ⟨D', hD', by rw [htopics, hlisted, hremoved], fun e he => readers t T' D' e hT' hD' he⟩
  · obtain ⟨P, hP, hrefs⟩ := map_eq_map (hshape.symm.participants p) hP'
    obtain ⟨T, hT, hcreator⟩ := h.owned p P t hP (hrefs ▸ ht)
    obtain ⟨T', hT', hcreator', -⟩ := hshape.topic hT
    exact ⟨T', hT', hcreator'.trans hcreator⟩
  · rw [hshape.described, h.described, isSome_eq_of_map (hshape.descriptions d)]
  · obtain ⟨D, hD, htopics⟩ := map_eq_map (hshape.symm.descriptions d) hD'
    obtain ⟨hne, hall⟩ := h.topics d D hD
    rw [← htopics]
    refine ⟨hne, fun t ht => ?_⟩
    obtain ⟨T, hT, hd⟩ := hall t ht
    obtain ⟨T', hT', -, hd', -⟩ := hshape.topic hT
    exact ⟨T', hT', hd'.trans hd⟩

theorem SameShape.fewer (h : SameShape r r') : Fewer r r' := by
  intro t T' hT'
  obtain ⟨T, hT, hcreator, hdescription, -⟩ := h.symm.topic hT'
  exact ⟨T, hT, hcreator, hdescription⟩

end

section

theorem release_eq (removing : Bool) (hT : r.topics t = some T) : ∃ r', r.release removing t = some r' ∧
    (∀ t', r'.topics t' = if t' = t then
      (if (T.removed || removing) && T.unused then none
        else some { T with removed := T.removed || removing }) else r.topics t') ∧
    (∀ t', t' ∈ r'.idToTopicMap ↔ t' ∈ r.idToTopicMap ∧
      ¬ (t' = t ∧ ((T.removed || removing) && T.unused) = true)) ∧
    r'.participants = r.participants ∧ r'.descriptions = r.descriptions ∧
    r'.topicDescriptions = r.topicDescriptions := by
  have hunused : ({ T with removed := T.removed || removing } : Topic).unused = T.unused := rfl
  by_cases hgone : ((T.removed || removing) && T.unused) = true
  · have heq : r.release removing t = some { r.setTopic t none with
        idToTopicMap := r.idToTopicMap.filter (· ≠ t) } := by
      simp only [Registry.release, hT, Option.bind_eq_bind, Option.bind_some, hunused, if_pos hgone]
    refine ⟨_, heq, fun t' => ?_, fun t' => ?_, rfl, rfl, rfl⟩
    · by_cases ht : t' = t
      · simp [Registry.setTopic, ht, hgone]
      · simp [Registry.setTopic, ht]
    · by_cases ht : t' = t
      · simp [ht, hgone]
      · simp [ht]
  · have heq : r.release removing t = some (r.setTopic t
        (some { T with removed := T.removed || removing })) := by
      simp only [Registry.release, hT, Option.bind_eq_bind, Option.bind_some, hunused, if_neg hgone]
    refine ⟨_, heq, fun t' => ?_, fun t' => ?_, rfl, rfl, rfl⟩
    · by_cases ht : t' = t
      · simp [Registry.setTopic, ht, hgone]
      · simp [Registry.setTopic, ht]
    · simp [Registry.setTopic, hgone]

theorem release_linked (h : Linked r E) (hT : r.topics t = some T) :
    ∃ r', r.release false t = some r' ∧ Linked r' E ∧ Fewer r r' ∧
      r'.participants = r.participants ∧ r'.descriptions = r.descriptions ∧
      ((∀ t' T', t' ≠ t → r.topics t' = some T' → T'.removed = true → T'.unused = false) →
        Used r') := by
  obtain ⟨r', heq, htopics, hmapped, hparticipants, hdescriptions, hset⟩ := release_eq false hT
  rw [Bool.or_false] at htopics hmapped
  -- A topic of `r'` is a topic of `r`, and not one that goes.
  have hbefore : ∀ t' T', r'.topics t' = some T' → r.topics t' = some T' ∧
      ¬ (t' = t ∧ (T.removed && T.unused) = true) := by
    intro t' T' hT'
    rw [htopics] at hT'
    split_ifs at hT' with ht hgone
    · cases hT'
      subst ht
      exact ⟨hT, fun h => hgone h.2⟩
    · exact ⟨hT', fun h => ht h.1⟩
  have hafter : ∀ t' T', r.topics t' = some T' → ¬ (t' = t ∧ (T.removed && T.unused) = true) →
      r'.topics t' = some T' := by
    intro t' T' hT' hstays
    rw [htopics]
    split_ifs with ht hgone
    · exact absurd ⟨ht, hgone⟩ hstays
    · subst ht
      rw [hT] at hT'
      exact hT'
    · exact hT'
  have hrefs : ∀ t' T', r.topics t' = some T' → (∃ k, T'.refs k ≠ []) → r'.topics t' = some T' := by
    rintro t' T' hT' ⟨k, hne⟩
    refine hafter t' T' hT' ?_
    rintro ⟨rfl, hgone⟩
    rw [hT] at hT'
    cases hT'
    exact hne (unused_iff.mp (Bool.and_eq_true_iff.mp hgone).2 k)
  have hkept : ∀ t' T', r.topics t' = some T' → T'.removed = false → r'.topics t' = some T' := by
    intro t' T' hT' hremoved
    refine hafter t' T' hT' ?_
    rintro ⟨rfl, hgone⟩
    rw [hT] at hT'
    cases hT'
    rw [hremoved] at hgone
    cases hgone
  refine ⟨r', heq, ⟨fun k e x hx => ?_, fun t' T' k e hT' he => ?_, fun t' => ?_, fun t' T' hT' => ?_,
    fun t' T' hT' => ?_, fun p P t' hP ht' => ?_, fun d => ?_, fun d D hD => ?_, fun d D hD e he => ?_⟩,
    fun t' T' hT' => ⟨T', (hbefore t' T' hT').1, rfl, rfl⟩, hparticipants, hdescriptions,
    fun hused t' T' hT' hremoved => ?_⟩
  · obtain ⟨hp, T', hT', he⟩ := h.endpoint k e x hx
    rw [hparticipants]
    exact ⟨hp, T', hrefs _ T' hT' ⟨k, List.ne_nil_of_mem he⟩, he⟩
  · exact h.ref t' T' k e (hbefore t' T' hT').1 he
  · rw [hmapped, h.mapped, htopics]
    by_cases ht : t' = t
    · subst ht
      by_cases hgone : (T.removed && T.unused) = true
      · simp [hgone]
      · simp [hgone, hT]
    · simp [ht]
  · rw [hparticipants]
    exact h.creator t' T' (hbefore t' T' hT').1
  · rw [hdescriptions]
    exact h.description t' T' (hbefore t' T' hT').1
  · rw [hparticipants] at hP
    obtain ⟨T', hT', hcreator⟩ := h.owned p P t' hP ht'
    obtain ⟨P', hP', hlisted⟩ := h.creator t' T' hT'
    rw [hcreator, hP] at hP'
    cases hP'
    exact ⟨T', hkept t' T' hT' (hlisted.mp ht'), hcreator⟩
  · rw [hset, hdescriptions]
    exact h.described d
  · rw [hdescriptions] at hD
    obtain ⟨hne, hall⟩ := h.topics d D hD
    refine ⟨hne, fun t' ht' => ?_⟩
    obtain ⟨T', hT', hdesc⟩ := hall t' ht'
    obtain ⟨D', hD', hlisted, -⟩ := h.description t' T' hT'
    rw [hdesc, hD] at hD'
    cases hD'
    exact ⟨T', hkept t' T' hT' (hlisted.mp ht'), hdesc⟩
  · rw [hdescriptions] at hD
    obtain ⟨x, T', hx, hT', hdesc⟩ := h.subscriptions d D hD e he
    obtain ⟨-, T'', hT'', he''⟩ := h.endpoint .reader e x hx
    exact ⟨x, T', hx, hrefs _ T' hT' ⟨.reader, by
      rw [hT'] at hT''
      cases hT''
      exact List.ne_nil_of_mem he''⟩, hdesc⟩
  · by_cases ht : t' = t
    · subst ht
      obtain ⟨hT'', hstays⟩ := hbefore t' T' hT'
      rw [hT] at hT''
      cases hT''
      by_contra hunused
      exact hstays ⟨rfl, by simpa [hremoved] using hunused⟩
    · exact hused t' T' ht (hbefore t' T' hT').1 hremoved

end

section

def without (k : Kind) (e : Nat) (E : Kind → Nat → Option (Endpoint δ)) :
    Kind → Nat → Option (Endpoint δ) :=
  fun k' e' => if k' = k ∧ e' = e then none else E k' e'

theorem without_eq_some {k' : Kind} {e' : Nat} : without k e E k' e' = some x ↔
    ¬ (k' = k ∧ e' = e) ∧ E k' e' = some x := by
  unfold without
  split_ifs with h
  · simp [h]
  · simp [h]

/-- What the references of one kind change to, on the topic and, with subscriptions, on its
description. -/
structure Rereferenced (f : List Nat → List Nat) (k : Kind) (t d : Nat) (r r' : Registry) : Prop where
  topics : ∀ t', r'.topics t' = (r.topics t').map fun T =>
    { T with refs := fun k' => if t' = t ∧ k' = k then f (T.refs k') else T.refs k' }
  descriptions : ∀ d', r'.descriptions d' = (r.descriptions d').map fun D =>
    { D with subscriptionRefs :=
        if d' = d ∧ k = .reader then f D.subscriptionRefs else D.subscriptionRefs }
  participants : r'.participants = r.participants
  mapped : r'.idToTopicMap = r.idToTopicMap
  described : r'.topicDescriptions = r.topicDescriptions

variable {f : List Nat → List Nat}

theorem Rereferenced.shape (h : Rereferenced f k t d r r') : SameShape r r' := by
  refine ⟨fun p => by rw [h.participants], fun t' => ?_, fun d' => ?_, h.mapped, h.described⟩
  · rw [h.topics, Option.map_map]
    rfl
  · rw [h.descriptions, Option.map_map]
    rfl

theorem rereferenced_writer (hT : r.topics t = some T) :
    Rereferenced f .writer t d r
      (r.setTopic t (some { T with refs := Function.update T.refs .writer (f (T.refs .writer)) })) := by
  refine ⟨fun t' => ?_, fun d' => by simp [Registry.setTopic], rfl, rfl, rfl⟩
  by_cases ht : t' = t
  · simp only [Registry.setTopic, ht, Function.update_self, hT, Option.map_some, true_and]
    congr 2
    funext k'
    cases k' <;> rfl
  · simp [Registry.setTopic, ht]

theorem rereferenced_reader (hT : r.topics t = some T) (hD : r.descriptions d = some D) :
    Rereferenced f .reader t d r
      ((r.setTopic t (some { T with refs := Function.update T.refs .reader (f (T.refs .reader)) })
        ).setDescription d (some { D with subscriptionRefs := f D.subscriptionRefs })) := by
  refine ⟨fun t' => ?_, fun d' => ?_, rfl, rfl, rfl⟩
  · by_cases ht : t' = t
    · simp only [Registry.setTopic, Registry.setDescription, ht, Function.update_self, hT,
        Option.map_some, true_and]
      congr 2
      funext k'
      cases k' <;> rfl
    · simp [Registry.setTopic, Registry.setDescription, ht]
  · by_cases hd : d' = d
    · simp [Registry.setDescription, hd, hD]
    · simp [Registry.setTopic, Registry.setDescription, hd]

theorem removeReference_eq (hT : r.topics t = some T) (he : e ∈ T.refs k)
    (hD : r.descriptions T.description = some D) : ∃ r', r.removeReference k t e = some r' ∧
      Rereferenced (fun es => es.filter (· ≠ e)) k t T.description r r' := by
  unfold Registry.removeReference
  simp only [hT, Option.bind_eq_bind, Option.bind_some, if_pos he]
  cases k with
  | writer => exact ⟨_, rfl, rereferenced_writer hT⟩
  | reader =>
    have hD' : ∀ T', (r.setTopic t T').descriptions T.description = some D := fun _ => hD
    simp only [hD', Option.bind_some]
    exact ⟨_, rfl, rereferenced_reader hT hD⟩

theorem removeReference_linked (h : Linked r E) (hx : E k e = some x) :
    ∃ r', r.removeReference k x.topic e = some r' ∧ Linked r' (without k e E) ∧ SameShape r r' ∧
      r'.participants = r.participants ∧
      ∀ t T', t ≠ x.topic → r'.topics t = some T' → r.topics t = some T' := by
  obtain ⟨-, T, hT, he⟩ := h.endpoint k e x hx
  obtain ⟨D, hD, -⟩ := h.description _ T hT
  obtain ⟨r', heq, hrefs⟩ := removeReference_eq hT he hD
  -- The one reference that goes.
  have hmem : ∀ (gone : Prop) [Decidable gone] (es : List Nat) e',
      e' ∈ (if gone then es.filter (· ≠ e) else es) ↔ e' ∈ es ∧ ¬ (gone ∧ e' = e) := by
    intro gone _ es e'
    split_ifs with hgone
    · simp [hgone]
    · simp [hgone]
  refine ⟨r', heq, hrefs.shape.linked h (fun k' e' x' hx' => ?_) (fun t T' k' e' hT' he' => ?_)
    (fun t T' D' e' hT' hD' he' => ?_) (fun d D' hD' e' he' => ?_), hrefs.shape, hrefs.participants,
    fun t T' ht hT' => ?_⟩
  · obtain ⟨hne, hx'⟩ := without_eq_some.mp hx'
    obtain ⟨hp', T₀, hT₀, he'⟩ := h.endpoint k' e' x' hx'
    rw [hrefs.participants, hrefs.topics, hT₀]
    exact ⟨hp', _, rfl, (hmem _ _ e').mpr ⟨he', fun hboth => hne ⟨hboth.1.2, hboth.2⟩⟩⟩
  · rw [hrefs.topics] at hT'
    obtain ⟨T₀, hT₀, rfl⟩ := Option.map_eq_some_iff.mp hT'
    obtain ⟨he₀, hne⟩ := (hmem _ _ e').mp he'
    obtain ⟨x', hx', htopic⟩ := h.ref t T₀ k' e' hT₀ he₀
    refine ⟨x', without_eq_some.mpr ⟨?_, hx'⟩, htopic⟩
    rintro ⟨rfl, rfl⟩
    rw [hx] at hx'
    cases hx'
    exact hne ⟨⟨htopic.symm, rfl⟩, rfl⟩
  · rw [hrefs.topics] at hT'
    obtain ⟨T₀, hT₀, rfl⟩ := Option.map_eq_some_iff.mp hT'
    rw [hrefs.descriptions] at hD'
    obtain ⟨D₀, hD₀, rfl⟩ := Option.map_eq_some_iff.mp hD'
    obtain ⟨D₁, hD₁, -, hreaders⟩ := h.description t T₀ hT₀
    obtain rfl : D₀ = D₁ := Option.some.inj (hD₀.symm.trans hD₁)
    obtain ⟨he₀, hne⟩ := (hmem _ _ e').mp he'
    refine (hmem _ _ e').mpr ⟨hreaders e' he₀, ?_⟩
    rintro ⟨⟨-, rfl⟩, rfl⟩
    obtain ⟨x', hx', htopic⟩ := h.ref t T₀ .reader e' hT₀ he₀
    rw [hx] at hx'
    cases hx'
    exact hne ⟨⟨htopic.symm, rfl⟩, rfl⟩
  · rw [hrefs.descriptions] at hD'
    obtain ⟨D₀, hD₀, rfl⟩ := Option.map_eq_some_iff.mp hD'
    obtain ⟨he₀, hne⟩ := (hmem _ _ e').mp he'
    obtain ⟨x', T₀, hx', hT₀, hd⟩ := h.subscriptions d D₀ hD₀ e' he₀
    obtain ⟨T', hT', -, hd', -⟩ := hrefs.shape.topic hT₀
    refine ⟨x', T', without_eq_some.mpr ⟨?_, hx'⟩, hT', hd'.trans hd⟩
    rintro ⟨rfl, rfl⟩
    rw [hx] at hx'
    cases hx'
    rw [hT] at hT₀
    cases hT₀
    exact hne ⟨⟨hd.symm, rfl⟩, rfl⟩
  · simpa [hrefs.topics, ht] using hT'

theorem dropReference_linked (h : Linked r E) (hused : Used r) (hx : E k e = some x) :
    ∃ r', r.dropReference k x.topic e = some r' ∧ Linked r' (without k e E) ∧ Used r' ∧ Fewer r r' ∧
      r'.participants = r.participants ∧
      ∀ d D', r'.descriptions d = some D' → ∃ D, r.descriptions d = some D ∧ D.topics = D'.topics := by
  obtain ⟨r₁, heq₁, hlinked₁, hshape, hparticipants₁, hothers⟩ := removeReference_linked h hx
  obtain ⟨-, T₀, hT₀, -⟩ := h.endpoint k e x hx
  obtain ⟨T, hT, -⟩ := hshape.topic hT₀
  obtain ⟨r₂, heq₂, hlinked₂, hfewer₂, hparticipants₂, hdescriptions₂, hused₂⟩ :=
    release_linked hlinked₁ hT
  refine ⟨r₂, ?_, hlinked₂, hused₂ fun t' T' ht hT' => hused t' T' (hothers t' T' ht hT'),
    hshape.fewer.trans hfewer₂, hparticipants₂.trans hparticipants₁, fun d D' hD' => ?_⟩
  · simp only [Registry.dropReference, heq₁, Option.bind_eq_bind, Option.bind_some, heq₂]
  · rw [hdescriptions₂] at hD'
    exact map_eq_map (hshape.symm.descriptions d) hD'

end

section

theorem removeTopic_eq (hT : r.topics t = some T) (hP : r.participants p = some P)
    (hD : r.descriptions T.description = some D) (ht : t ∈ D.topics) :
    ∃ r', r.removeTopic p t = some r' ∧
      (∀ t', r'.topics t' = if t' = t then
        (if T.unused then none else some { T with removed := true }) else r.topics t') ∧
      (∀ t', t' ∈ r'.idToTopicMap ↔ t' ∈ r.idToTopicMap ∧ ¬ (t' = t ∧ T.unused = true)) ∧
      (∀ p', r'.participants p' = if p' = p then
        some { P with topicRefs := P.topicRefs.filter (· ≠ t) } else r.participants p') ∧
      (∀ d', r'.descriptions d' = if d' = T.description then
        (if D.topics.filter (· ≠ t) = [] then none
          else some { D with topics := D.topics.filter (· ≠ t) }) else r.descriptions d') ∧
      ∀ d', d' ∈ r'.topicDescriptions ↔ d' ∈ r.topicDescriptions ∧
        ¬ (d' = T.description ∧ D.topics.filter (· ≠ t) = []) := by
  let r₁ := if D.topics.filter (· ≠ t) = [] then
      { r.setDescription T.description none with
        topicDescriptions := r.topicDescriptions.filter (· ≠ T.description) }
    else r.setDescription T.description (some { D with topics := D.topics.filter (· ≠ t) })
  let r₂ := r₁.setParticipant p (some { P with topicRefs := P.topicRefs.filter (· ≠ t) })
  have hr₁ : r₁.participants = r.participants ∧ r₁.topics = r.topics ∧
      r₁.idToTopicMap = r.idToTopicMap := by
    simp only [r₁]
    split_ifs
    · exact ⟨rfl, rfl, rfl⟩
    · exact ⟨rfl, rfl, rfl⟩
  have hT₂ : r₂.topics t = some T := by
    change r₁.topics t = some T
    rw [hr₁.2.1, hT]
  obtain ⟨r', heq, htopics, hmapped, hparticipants, hdescriptions, hset⟩ := release_eq true hT₂
  refine ⟨r', ?_, fun t' => ?_, fun t' => ?_, fun p' => ?_, fun d' => ?_, fun d' => ?_⟩
  · have hP₁ : r₁.participants p = some P := by rw [hr₁.1, hP]
    simp only [Registry.removeTopic, hT, hD, Option.bind_eq_bind, Option.bind_some, if_pos ht]
    rw [hP₁]
    exact heq
  · rw [htopics, Bool.or_true, Bool.true_and]
    change (if t' = t then _ else r₁.topics t') = _
    rw [hr₁.2.1]
  · rw [hmapped, Bool.or_true, Bool.true_and]
    change t' ∈ r₁.idToTopicMap ∧ _ ↔ _
    rw [hr₁.2.2]
  · rw [hparticipants]
    change Function.update r₁.participants p _ p' = _
    rw [hr₁.1, Function.update_apply]
  · rw [hdescriptions]
    change r₁.descriptions d' = _
    by_cases hlast : D.topics.filter (· ≠ t) = []
    · simp only [r₁, if_pos hlast, Registry.setDescription, Function.update_apply]
    · simp only [r₁, if_neg hlast, Registry.setDescription, Function.update_apply]
  · rw [hset]
    change d' ∈ r₁.topicDescriptions ↔ _
    by_cases hlast : D.topics.filter (· ≠ t) = []
    · have hr₁ : r₁.topicDescriptions = r.topicDescriptions.filter (· ≠ T.description) := by
        simp only [r₁, if_pos hlast]
      rw [hr₁, List.mem_filter, decide_eq_true_eq]
      exact ⟨fun h => ⟨h.1, fun hboth => h.2 hboth.1⟩, fun h => ⟨h.1, fun heq => h.2 ⟨heq, hlast⟩⟩⟩
    · have hr₁ : r₁.topicDescriptions = r.topicDescriptions := by
        simp only [r₁, if_neg hlast, Registry.setDescription]
      rw [hr₁]
      exact ⟨fun h => ⟨h, fun hboth => hlast hboth.2⟩, fun h => h.1⟩

/-- No topic of the description is in use, if `t` is the last of them. -/
def LastUnused (t : Nat) (r : Registry) : Prop :=
  ∀ T D, r.topics t = some T → r.descriptions T.description = some D → (∀ t' ∈ D.topics, t' = t) →
    ∀ t' T', r.topics t' = some T' → T'.description = T.description → T'.unused = true

theorem removeTopic_linked (h : Linked r E) (hused : Used r) (hT : r.topics t = some T)
    (hcreator : T.creator = p) (hremoved : T.removed = false) (hlast : LastUnused t r) :
    ∃ r' P, r.removeTopic p t = some r' ∧ Linked r' E ∧ Used r' ∧ Fewer r r' ∧
      r.participants p = some P ∧
      (∀ p', r'.participants p' = if p' = p then
        some { P with topicRefs := P.topicRefs.filter (· ≠ t) } else r.participants p') ∧
      (∀ t', t' ≠ t → r'.topics t' = r.topics t') ∧
      (∀ d D', r'.descriptions d = some D' → ∃ D, r.descriptions d = some D ∧
        D'.topics = D.topics.filter (· ≠ t)) := by
  obtain ⟨P, hP, -⟩ := h.creator t T hT
  obtain ⟨D, hD, hlisted, -⟩ := h.description t T hT
  rw [hcreator] at hP
  obtain ⟨r', heq, htopics, hmapped, hparticipants, hdescriptions, hset⟩ :=
    removeTopic_eq hT hP hD (hlisted.mpr hremoved)
  have hothers : ∀ t', t' ≠ t → r'.topics t' = r.topics t' := by
    intro t' ht
    rw [htopics, if_neg ht]
  -- A topic of `r'` is one of `r`, removed if it is `t`.
  have hbefore : ∀ t' T', r'.topics t' = some T' → ∃ T₀, r.topics t' = some T₀ ∧
      T₀.creator = T'.creator ∧ T₀.description = T'.description ∧ T₀.refs = T'.refs ∧
      (t' ≠ t → T₀ = T') ∧ (t' = t → T'.removed = true ∧ T'.unused = false) := by
    intro t' T' hT'
    by_cases ht : t' = t
    · subst ht
      rw [htopics, if_pos rfl] at hT'
      split_ifs at hT' with hunused
      cases hT'
      exact ⟨T, hT, rfl, rfl, rfl, fun hne => absurd rfl hne, fun _ =>
        ⟨rfl, Bool.eq_false_iff.mpr hunused⟩⟩
    · rw [hothers t' ht] at hT'
      exact ⟨T', hT', rfl, rfl, rfl, fun _ => rfl, fun heq => absurd heq ht⟩
  have hstays : ∀ t' T₀ k e, r.topics t' = some T₀ → e ∈ T₀.refs k → ∃ T', r'.topics t' = some T' ∧
      T'.creator = T₀.creator ∧ T'.description = T₀.description ∧ T'.refs = T₀.refs := by
    intro t' T₀ k e hT₀ he
    by_cases ht : t' = t
    · subst ht
      rw [hT] at hT₀
      cases hT₀
      have hunused : ¬ T.unused = true := fun hunused =>
        List.ne_nil_of_mem he (unused_iff.mp hunused k)
      refine ⟨{ T with removed := true }, ?_, rfl, rfl, rfl⟩
      rw [htopics, if_pos rfl, if_neg hunused]
    · exact ⟨T₀, by rw [hothers t' ht, hT₀], rfl, rfl, rfl⟩
  -- If the description goes, none of its topics stays.
  have hdescription : ∀ t' T', r'.topics t' = some T' → T'.description = T.description →
      D.topics.filter (· ≠ t) ≠ [] := by
    intro t' T' hT' hd hnil
    obtain ⟨T₀, hT₀, -, hd₀, hrefs, hsame, hnow⟩ := hbefore t' T' hT'
    have honly : ∀ t₁ ∈ D.topics, t₁ = t := by
      intro t₁ ht₁
      by_contra hne
      have hmem : t₁ ∈ D.topics.filter (· ≠ t) := List.mem_filter.mpr ⟨ht₁, by simpa using hne⟩
      rw [hnil] at hmem
      cases hmem
    have hunused := hlast T D hT hD honly t' T₀ hT₀ (hd₀.trans hd)
    by_cases ht : t' = t
    · have hbusy := (hnow ht).2
      rw [Topic.unused, ← hrefs] at hbusy
      rw [Topic.unused, hbusy] at hunused
      cases hunused
    · cases hremoved₀ : T₀.removed with
      | true =>
        rw [hused t' T₀ hT₀ hremoved₀] at hunused
        cases hunused
      | false =>
        obtain ⟨D₀, hD₀, hlisted₀, -⟩ := h.description t' T₀ hT₀
        rw [hd₀.trans hd, hD] at hD₀
        cases hD₀
        exact ht (honly t' (hlisted₀.mpr hremoved₀))
  have hdesc : ∀ d D', r'.descriptions d = some D' → ∃ D₀, r.descriptions d = some D₀ ∧
      D'.subscriptionRefs = D₀.subscriptionRefs ∧ D'.topics = D₀.topics.filter (· ≠ t) ∧
      D'.topics ≠ [] := by
    intro d D' hD'
    rw [hdescriptions] at hD'
    split_ifs at hD' with hd hnil
    · cases hD'
      exact ⟨D, hd ▸ hD, rfl, rfl, hnil⟩
    · obtain ⟨hne, hall⟩ := h.topics d D' hD'
      refine ⟨D', hD', rfl, ?_, hne⟩
      refine (List.filter_eq_self.mpr fun t' ht' => ?_).symm
      obtain ⟨T', hT', hd'⟩ := hall t' ht'
      have hne' : t' ≠ t := by
        rintro rfl
        rw [hT] at hT'
        cases hT'
        exact hd hd'.symm
      simpa using hne'
  refine ⟨r', P, heq, ⟨fun k e x hx => ?_, fun t' T' k e hT' he => ?_, fun t' => ?_, fun t' T' hT' => ?_,
    fun t' T' hT' => ?_, fun p' P' t' hP' ht' => ?_, fun d => ?_, fun d D' hD' => ?_,
    fun d D' hD' e he => ?_⟩, fun t' T' hT' hremoved' => ?_, fun t' T' hT' => ?_, hP, hparticipants,
    hothers, fun d D' hD' => ?_⟩
  · obtain ⟨hp, T₀, hT₀, he⟩ := h.endpoint k e x hx
    obtain ⟨T', hT', -, -, hrefs⟩ := hstays _ T₀ k e hT₀ he
    refine ⟨?_, T', hT', by rwa [hrefs]⟩
    rw [hparticipants]
    split_ifs
    · rfl
    · exact hp
  · obtain ⟨T₀, hT₀, -, -, hrefs, -⟩ := hbefore t' T' hT'
    exact h.ref t' T₀ k e hT₀ (hrefs ▸ he)
  · rw [hmapped, h.mapped, htopics]
    by_cases ht : t' = t
    · subst ht
      by_cases hunused : T.unused = true
      · simp [hunused]
      · simp [hunused, hT]
    · simp [ht]
  · obtain ⟨T₀, hT₀, hc, -, -, hsame, hnow⟩ := hbefore t' T' hT'
    obtain ⟨P₀, hP₀, hlisted₀⟩ := h.creator t' T₀ hT₀
    rw [← hc, hparticipants]
    by_cases ht : t' = t
    · obtain ⟨hremoved', -⟩ := hnow ht
      subst ht
      rw [hT] at hT₀
      cases hT₀
      refine ⟨_, by rw [if_pos hcreator], ?_⟩
      simp [hremoved']
    · rw [← hsame ht]
      split_ifs with hp
      · rw [hp, hP] at hP₀
        cases hP₀
        exact ⟨_, rfl, by rw [← hlisted₀]; simp [ht]⟩
      · exact ⟨P₀, hP₀, hlisted₀⟩
  · obtain ⟨T₀, hT₀, -, hd, hrefs, hsame, hnow⟩ := hbefore t' T' hT'
    obtain ⟨D₀, hD₀, hlisted₀, hreaders₀⟩ := h.description t' T₀ hT₀
    rw [← hd, ← hrefs, hdescriptions]
    split_ifs with hdT hnil
    · exact absurd hnil (hdescription t' T' hT' (hd.symm.trans hdT))
    · rw [hdT, hD] at hD₀
      cases hD₀
      refine ⟨_, rfl, ?_, hreaders₀⟩
      by_cases ht : t' = t
      · simp [ht, (hnow ht).1]
      · rw [← hsame ht, ← hlisted₀]
        simp [ht]
    · refine ⟨D₀, hD₀, ?_, hreaders₀⟩
      have ht : t' ≠ t := by
        rintro rfl
        rw [hT] at hT₀
        cases hT₀
        exact hdT rfl
      rw [← hsame ht]
      exact hlisted₀
  · rw [hparticipants] at hP'
    split_ifs at hP' with hp
    · cases hP'
      obtain ⟨hmem, hne⟩ := List.mem_filter.mp ht'
      obtain ⟨T₀, hT₀, hc⟩ := h.owned p P t' hP hmem
      exact ⟨T₀, by rw [hothers t' (by simpa using hne), hT₀], hc.trans hp.symm⟩
    · obtain ⟨T₀, hT₀, hc⟩ := h.owned p' P' t' hP' ht'
      have hne : t' ≠ t := by
        rintro rfl
        rw [hT] at hT₀
        cases hT₀
        exact hp (hc.symm.trans hcreator)
      exact ⟨T₀, by rw [hothers t' hne, hT₀], hc⟩
  · rw [hset, h.described, hdescriptions]
    by_cases hd : d = T.description
    · by_cases hnil : D.topics.filter (· ≠ t) = []
      · rw [if_pos hd, if_pos hnil]
        simp only [hd, hnil, and_self, not_true_eq_false, and_false, Option.isSome_none,
          Bool.false_eq_true]
      · rw [if_pos hd, if_neg hnil, hd, hD]
        simp only [hnil, and_false, not_false_eq_true, and_true, Option.isSome_some]
    · simp only [hd, false_and, not_false_eq_true, and_true, if_false]
  · obtain ⟨D₀, hD₀, -, htopics', hne⟩ := hdesc d D' hD'
    refine ⟨hne, fun t' ht' => ?_⟩
    rw [htopics'] at ht'
    obtain ⟨hmem, hne'⟩ := List.mem_filter.mp ht'
    obtain ⟨T₀, hT₀, hd⟩ := (h.topics d D₀ hD₀).2 t' hmem
    exact ⟨T₀, by rw [hothers t' (by simpa using hne'), hT₀], hd⟩
  · obtain ⟨D₀, hD₀, hsubs, -⟩ := hdesc d D' hD'
    rw [hsubs] at he
    obtain ⟨x, T₀, hx, hT₀, hd⟩ := h.subscriptions d D₀ hD₀ e he
    obtain ⟨-, T₁, hT₁, he₁⟩ := h.endpoint .reader e x hx
    rw [hT₀] at hT₁
    cases hT₁
    obtain ⟨T', hT', -, hd', -⟩ := hstays _ T₀ .reader e hT₀ he₁
    exact ⟨x, T', hx, hT', hd'.trans hd⟩
  · obtain ⟨T₀, hT₀, -, -, -, hsame, hnow⟩ := hbefore t' T' hT'
    by_cases ht : t' = t
    · exact (hnow ht).2
    · rw [← hsame ht] at hremoved' ⊢
      exact hused t' T₀ hT₀ hremoved'
  · obtain ⟨T₀, hT₀, hc, hd, -⟩ := hbefore t' T' hT'
    exact ⟨T₀, hT₀, hc, hd⟩
  · obtain ⟨D₀, hD₀, -, htopics', -⟩ := hdesc d D' hD'
    exact ⟨D₀, hD₀, htopics'⟩

end

end OpenDDS.Source.InfoRepo
