import OpenDDS.Source.InfoRepoCalls

/-!
# The invariant of a domain

The pointers are right, every id from `next` on is unused, and no list has an entry twice. There is
one lemma for what each call does to the objects of the domain; associations are not objects.
-/
namespace OpenDDS.Source.InfoRepo

open Library QosMatching
open Function (update update_apply update_of_ne update_self)

variable {δ : Type} {s : Domain δ} {k : Kind} {p t d e : Nat} {x : Endpoint δ}

def Domain.found (s : Domain δ) : Kind → Nat → Option (Endpoint δ) := fun k e => s.endpoint k e

structure Sound (s : Domain δ) : Prop where
  linked : Linked s.registry s.found
  used : Used s.registry
  fresh : ∀ i, s.next ≤ i → s.registry.participants i = none ∧ s.registry.topics i = none ∧
    s.registry.descriptions i = none ∧ ∀ k, s.found k i = none
  distinct : ∀ k, ((s.endpoints k).map Prod.fst).Nodup
  topicRefs : ∀ p P, s.registry.participants p = some P → P.topicRefs.Nodup

theorem create_sound : Sound (Domain.create : Domain δ) := by
  refine ⟨⟨?_, ?_, ?_, ?_, ?_, ?_, ?_, ?_, ?_⟩, ?_, fun _ _ => ⟨rfl, rfl, rfl, fun _ => rfl⟩,
    fun _ => List.nodup_nil, ?_⟩
  · intro k e x hx
    cases hx
  · intro t T k e hT
    cases hT
  · exact fun t => ⟨fun ht => absurd ht List.not_mem_nil, fun ht => absurd ht Bool.false_ne_true⟩
  · intro t T hT
    cases hT
  · intro t T hT
    cases hT
  · intro p P t hP
    cases hP
  · exact fun d => ⟨fun hd => absurd hd List.not_mem_nil, fun hd => absurd hd Bool.false_ne_true⟩
  · intro d D hD
    cases hD
  · intro d D hD
    cases hD
  · intro t T hT
    cases hT
  · intro p P hP
    cases hP

theorem mem_endpoints (h : Sound s) : (e, x) ∈ s.endpoints k ↔ s.found k e = some x :=
  AssociationList.mem_iff_lookup (h.distinct k)

theorem Sound.associations (a : Associations) (h : Sound s) : Sound { s with associations := a } :=
  ⟨h.linked, h.used, h.fresh, h.distinct, h.topicRefs⟩

section

theorem addParticipant_sound (isOwner : Bool) (h : Sound s) : Sound (s.addParticipant isOwner) := by
  obtain ⟨hp, -⟩ := h.fresh s.next (Nat.le_refl _)
  have hparticipants : ∀ p, (s.addParticipant isOwner).registry.participants p =
      if p = s.next then some ⟨isOwner, [], [], [], fun _ => []⟩ else s.registry.participants p :=
    fun p => update_apply s.registry.participants s.next _ p
  have hold : ∀ p P, s.registry.participants p = some P →
      (s.addParticipant isOwner).registry.participants p = some P := by
    intro p P hP
    rw [hparticipants, if_neg]
    · exact hP
    · rintro rfl
      rw [hp] at hP
      cases hP
  have hl := h.linked
  refine ⟨⟨fun k e x hx => ?_, hl.ref, hl.mapped, fun t T hT => ?_, hl.description,
    fun p P t hP ht => ?_, hl.described, hl.topics, hl.subscriptions⟩, h.used, fun i hi => ?_,
    h.distinct, fun p P hP => ?_⟩
  · obtain ⟨hsome, hT⟩ := hl.endpoint k e x hx
    obtain ⟨P, hP⟩ := Option.isSome_iff_exists.mp hsome
    exact ⟨Option.isSome_iff_exists.mpr ⟨P, hold _ P hP⟩, hT⟩
  · obtain ⟨P, hP, hlisted⟩ := hl.creator t T hT
    exact ⟨P, hold _ P hP, hlisted⟩
  · rw [hparticipants] at hP
    split_ifs at hP with hnext
    · cases hP
      cases ht
    · exact hl.owned p P t hP ht
  · have hi' : s.next + 1 ≤ i := hi
    rw [hparticipants, if_neg (by omega)]
    exact h.fresh i (by omega)
  · rw [hparticipants] at hP
    split_ifs at hP with hnext
    · cases hP
      exact List.nodup_nil
    · exact h.topicRefs p P hP

theorem addTopic_sound (p : Nat) (name dataTypeName : String) (h : Sound s) :
    Sound (s.addTopic p name dataTypeName) := by
  obtain ⟨-, ht, hd, -⟩ := h.fresh s.next (Nat.le_refl _)
  obtain ⟨hlinked, hused⟩ :
      Linked (s.registry.addTopic p s.next name dataTypeName) s.found ∧
        Used (s.registry.addTopic p s.next name dataTypeName) :=
    addTopic_linked h.linked h.used ht hd
  have hregistry : (s.addTopic p name dataTypeName).registry =
    s.registry.addTopic p s.next name dataTypeName := rfl
  refine ⟨hlinked, hused, fun i hi => ?_, h.distinct, fun p' P' hP' => ?_⟩
  · have hi' : s.next + 1 ≤ i := hi
    obtain ⟨hpi, hti, hdi, hei⟩ := h.fresh i (by omega)
    rw [hregistry]
    rcases addTopic_cases hd with heq | ⟨P, d, D, ds, hP, -, hD, heq⟩
    · rw [heq]
      exact ⟨hpi, hti, hdi, hei⟩
    · have hpne : i ≠ p := by
        rintro rfl
        rw [hpi] at hP
        cases hP
      have hdne : i ≠ d := by
        rintro rfl
        rcases hD with hD | ⟨rfl, -⟩
        · rw [hdi] at hD
          cases hD
        · omega
      rw [heq]
      exact ⟨(update_of_ne hpne _ _).trans hpi,
        (update_of_ne (by omega) _ _).trans hti, (update_of_ne hdne _ _).trans hdi, hei⟩
  · rw [hregistry] at hP'
    rcases addTopic_cases hd with heq | ⟨P, d, D, ds, hP, -, hD, heq⟩
    · rw [heq] at hP'
      exact h.topicRefs p' P' hP'
    · have hparticipants : (Registry.insertTopic p s.next d P D
          { s.registry with topicDescriptions := ds }).participants p' =
          if p' = p then some { P with topicRefs := P.topicRefs ++ [s.next] }
          else s.registry.participants p' := update_apply s.registry.participants p _ p'
      rw [heq, hparticipants] at hP'
      split_ifs at hP' with hp
      · cases hP'
        refine List.nodup_append.mpr ⟨h.topicRefs p P hP, List.nodup_singleton _, ?_⟩
        rintro t hmem _ hsingle rfl
        rw [List.mem_singleton] at hsingle
        subst hsingle
        obtain ⟨T, hT, -⟩ := h.linked.owned p P s.next hP hmem
        rw [ht] at hT
        cases hT
      · exact h.topicRefs p' P' hP'

theorem insertEndpoint_sound (k : Kind) (h : Sound s) (hp : (s.registry.participants x.participant).isSome)
    (ht : x.topic ∈ s.registry.idToTopicMap) :
    ∃ s', s.insertEndpoint k x = some s' ∧ Sound s' ∧ s'.found = including k s.next x s.found ∧
      s'.associations = s.associations := by
  obtain ⟨T, hT⟩ := Option.isSome_iff_exists.mp ((h.linked.mapped x.topic).mp ht)
  obtain ⟨-, -, -, hnew⟩ := h.fresh s.next (Nat.le_refl _)
  obtain ⟨r', heq, hlinked, hused, hshape, hparticipants⟩ :=
    addReference_linked h.linked h.used hT hp (hnew k)
  let s' : Domain δ := { s with
    registry := r'
    endpoints := update s.endpoints k (s.endpoints k ++ [(s.next, x)])
    next := s.next + 1 }
  have hfound : s'.found = including k s.next x s.found := by
    funext k' e'
    change (update s.endpoints k _ k').lookup e' = _
    unfold including
    by_cases hk : k' = k
    · subst hk
      rw [update_self, AssociationList.lookup_concat (hnew k')]
      simp [Domain.found, Domain.endpoint]
    · simp [hk, Domain.found, Domain.endpoint]
  refine ⟨s', ?_, ⟨by rw [hfound]; exact hlinked, hused, fun i hi => ?_, fun k' => ?_,
    fun p' P' hP' => ?_⟩, hfound, rfl⟩
  · unfold Domain.insertEndpoint
    rw [heq]
    rfl
  · have hi' : s.next + 1 ≤ i := hi
    obtain ⟨hpi, hti, hdi, hei⟩ := h.fresh i (by omega)
    refine ⟨none_of_map (hshape.participants i) hpi, none_of_map (hshape.topics i) hti,
      none_of_map (hshape.descriptions i) hdi, fun k' => ?_⟩
    rw [hfound, including, if_neg (by omega)]
    exact hei k'
  · change ((update s.endpoints k _ k').map Prod.fst).Nodup
    by_cases hk : k' = k
    · subst hk
      rw [update_self, List.map_append]
      refine List.nodup_append.mpr ⟨h.distinct k', List.nodup_singleton _, ?_⟩
      rintro e hmem _ hsingle rfl
      rw [List.map_singleton, List.mem_singleton] at hsingle
      obtain ⟨⟨e', y⟩, hmem', rfl⟩ := List.mem_map.mp hmem
      have hfound' := (mem_endpoints h).mp hmem'
      rw [show e' = s.next from hsingle, hnew k'] at hfound'
      cases hfound'
    · rw [update_of_ne hk]
      exact h.distinct k'
  · obtain ⟨P, hP, hrefs⟩ := map_eq_map (hshape.symm.participants p') hP'
    rw [← hrefs]
    exact h.topicRefs p' P hP

end

section

theorem fewer_none {r r' : Registry} (h : Fewer r r') (ht : r.topics t = none) : r'.topics t = none := by
  refine Option.eq_none_iff_forall_ne_some.mpr fun T' hT' => ?_
  obtain ⟨T, hT, -⟩ := h t T' hT'
  rw [ht] at hT
  cases hT

theorem dropEndpoint_sound (h : Sound s) (hx : s.found k e = some x) :
    ∃ s', s.dropEndpoint k e x = some s' ∧ Sound s' ∧ s'.found = without k e s.found ∧
      s'.associations = s.associations := by
  obtain ⟨r', heq, hlinked, hused, hfewer, hparticipants, hdesc⟩ :=
    dropReference_linked h.linked h.used hx
  let s' : Domain δ := { s with
    registry := r'
    endpoints := update s.endpoints k
      ((s.endpoints k).filter fun entry => entry.1 ≠ e) }
  have hfound : s'.found = without k e s.found := by
    funext k' e'
    change (update s.endpoints k _ k').lookup e' = _
    unfold without
    by_cases hk : k' = k
    · subst hk
      rw [update_self, AssociationList.lookup_erase]
      simp [Domain.found, Domain.endpoint]
    · simp [hk, Domain.found, Domain.endpoint]
  refine ⟨s', ?_, ⟨by rw [hfound]; exact hlinked, hused, fun i hi => ?_, fun k' => ?_,
    fun p' P' hP' => ?_⟩, hfound, rfl⟩
  · unfold Domain.dropEndpoint
    rw [heq]
    rfl
  · obtain ⟨hpi, hti, hdi, hei⟩ := h.fresh i hi
    refine ⟨by rw [← hpi]; exact congrFun hparticipants i, fewer_none hfewer hti, ?_,
      fun k' => ?_⟩
    · refine Option.eq_none_iff_forall_ne_some.mpr fun D' hD' => ?_
      obtain ⟨D, hD, -⟩ := hdesc i D' hD'
      rw [hdi] at hD
      cases hD
    · rw [hfound, without]
      split_ifs
      · rfl
      · exact hei k'
  · change ((update s.endpoints k _ k').map Prod.fst).Nodup
    by_cases hk : k' = k
    · subst hk
      rw [update_self]
      exact (h.distinct k').sublist (List.filter_sublist.map _)
    · rw [update_of_ne hk]
      exact h.distinct k'
  · rw [show s'.registry.participants = s.registry.participants from hparticipants] at hP'
    exact h.topicRefs p' P' hP'

/-- If the topic is the last of its description, no topic of the description is in use. -/
def LastIdle (t : Nat) (s : Domain δ) : Prop :=
  ∀ T ∈ s.registry.topics t, ∀ D ∈ s.registry.descriptions T.description, (∀ t' ∈ D.topics, t' = t) →
    ∀ k, ∀ entry ∈ s.endpoints k, ∀ T' ∈ s.registry.topics entry.2.topic,
      T'.description ≠ T.description

theorem LastIdle.lastUnused (hidle : LastIdle t s) (h : Sound s) : LastUnused t s.registry := by
  intro T D hT hD honly t' T' hT' hd
  refine unused_of_linked h.linked hT' ?_
  rintro k e x hx rfl
  exact hidle T hT D hD honly k (e, x) ((mem_endpoints h).mpr hx) T' hT' hd

theorem removeTopic_sound (p t : Nat) (h : Sound s) (hidle : LastIdle t s) :
    ∃ s', s.removeTopic p t = some s' ∧ Sound s' ∧ s'.found = s.found ∧
      s'.associations = s.associations := by
  unfold Domain.removeTopic
  cases hP : s.registry.participants p with
  | none => exact ⟨s, rfl, h, rfl, rfl⟩
  | some P =>
    by_cases hmem : t ∈ P.topicRefs
    · obtain ⟨T, hT, hcreator⟩ := h.linked.owned p P t hP hmem
      have hremoved : T.removed = false := by
        obtain ⟨P₀, hP₀, hlisted⟩ := h.linked.creator t T hT
        rw [hcreator, hP] at hP₀
        cases hP₀
        exact hlisted.mp hmem
      obtain ⟨r', P', heq, hlinked, hused, hfewer, hP', hparticipants, -, hdesc⟩ :=
        removeTopic_linked h.linked h.used hT hcreator hremoved (hidle.lastUnused h)
      rw [hP] at hP'
      cases hP'
      refine ⟨{ s with registry := r' }, ?_, ⟨hlinked, hused, fun i hi => ?_, h.distinct,
        fun p' P' hP' => ?_⟩, rfl, rfl⟩
      · simp only [if_pos hmem, heq, Option.bind_eq_bind, Option.bind_some]
      · obtain ⟨hpi, hti, hdi, hei⟩ := h.fresh i hi
        refine ⟨?_, fewer_none hfewer hti, ?_, hei⟩
        · rw [hparticipants, if_neg]
          · exact hpi
          · rintro rfl
            rw [hpi] at hP
            cases hP
        · refine Option.eq_none_iff_forall_ne_some.mpr fun D' hD' => ?_
          obtain ⟨D, hD, -⟩ := hdesc i D' hD'
          rw [hdi] at hD
          cases hD
      · rw [hparticipants] at hP'
        split_ifs at hP' with hp
        · cases hP'
          exact (h.topicRefs p P hP).sublist List.filter_sublist
        · exact h.topicRefs p' P' hP'
    · exact ⟨s, if_neg hmem, h, rfl, rfl⟩

/-- There is an update manager if the participant has topics; others use neither a topic that the
participant created nor a description that has only its topics. -/
structure HandedOver (um : Bool) (p : Nat) (s : Domain δ) : Prop where
  topics : um = true ∨ ∀ P ∈ s.registry.participants p, P.topicRefs = []
  users : ∀ k, ∀ entry ∈ s.endpoints k, ∀ T ∈ s.registry.topics entry.2.topic, T.creator = p →
    entry.2.participant = p
  descriptions : ∀ d ∈ s.registry.topicDescriptions, ∀ D ∈ s.registry.descriptions d,
    (∀ t ∈ D.topics, ∃ T ∈ s.registry.topics t, T.creator = p) →
    ∀ k, ∀ entry ∈ s.endpoints k, ∀ T ∈ s.registry.topics entry.2.topic, T.description = d →
      entry.2.participant = p

/-- The endpoints of the other participants. -/
def Domain.foundOthers (p : Nat) (s : Domain δ) : Kind → Nat → Option (Endpoint δ) :=
  fun k e => (s.found k e).filter fun x => x.participant ≠ p

theorem foundOthers_eq_some : s.foundOthers p k e = some x ↔ s.found k e = some x ∧ x.participant ≠ p := by
  rw [Domain.foundOthers, Option.filter_eq_some_iff, decide_eq_true_eq]

theorem mem_endpointsOf (h : Sound s) : e ∈ (s.endpointsOf k p).map Prod.fst ↔
    ∃ x, s.found k e = some x ∧ x.participant = p := by
  rw [List.mem_map]
  constructor
  · rintro ⟨⟨e, x⟩, hmem, rfl⟩
    obtain ⟨hmem, howner⟩ := List.mem_filter.mp hmem
    exact ⟨x, (mem_endpoints h).mp hmem, of_decide_eq_true howner⟩
  · rintro ⟨x, hx, howner⟩
    exact ⟨(e, x), List.mem_filter.mpr ⟨(mem_endpoints h).mpr hx, decide_eq_true howner⟩, rfl⟩

theorem dropping_endpointsOf (h : Sound s) :
    dropping .reader ((s.endpointsOf .reader p).map Prod.fst)
      (dropping .writer ((s.endpointsOf .writer p).map Prod.fst) s.found) = s.foundOthers p := by
  funext k e
  have hk : dropping .reader ((s.endpointsOf .reader p).map Prod.fst)
      (dropping .writer ((s.endpointsOf .writer p).map Prod.fst) s.found) k e =
      if e ∈ (s.endpointsOf k p).map Prod.fst then none else s.found k e := by
    cases k with
    | writer => simp only [dropping, reduceCtorEq, false_and, if_false, true_and]
    | reader => simp only [dropping, reduceCtorEq, false_and, if_false, true_and]
  rw [hk, Domain.foundOthers]
  by_cases hmem : ∃ x, s.found k e = some x ∧ x.participant = p
  · rw [if_pos ((mem_endpointsOf h).mpr hmem)]
    obtain ⟨x, hx, howner⟩ := hmem
    simp [hx, howner, Option.filter]
  · rw [if_neg (mt (mem_endpointsOf h).mp hmem)]
    cases hx : s.found k e with
    | none => rfl
    | some x =>
      have hne : x.participant ≠ p := fun howner => hmem ⟨x, hx, howner⟩
      simp [hne, Option.filter]

theorem HandedOver.handed {um : Bool} {r : Registry} (hover : HandedOver um p s) (h : Sound s)
    (hfewer : Fewer s.registry r)
    (hdesc : ∀ d D', r.descriptions d = some D' →
      ∃ D, s.registry.descriptions d = some D ∧ D.topics = D'.topics) :
    Handed p r (s.foundOthers p) := by
  refine ⟨fun k e x T' hx hT' hc => ?_, fun d D' hD' hall k e x T' hx hT' hd => ?_⟩
  · obtain ⟨hx, hne⟩ := foundOthers_eq_some.mp hx
    obtain ⟨T, hT, hcreator, -⟩ := hfewer _ T' hT'
    exact hne (hover.users k (e, x) ((mem_endpoints h).mpr hx) T hT (hcreator.trans hc))
  · obtain ⟨hx, hne⟩ := foundOthers_eq_some.mp hx
    obtain ⟨T, hT, -, hdescription⟩ := hfewer _ T' hT'
    obtain ⟨D, hD, htopics⟩ := hdesc d D' hD'
    have hmem : d ∈ s.registry.topicDescriptions :=
      (h.linked.described d).mpr (Option.isSome_iff_exists.mpr ⟨D, hD⟩)
    refine hne (hover.descriptions d hmem D hD (fun t ht => ?_) k (e, x) ((mem_endpoints h).mpr hx) T hT
      (hdescription.trans hd))
    obtain ⟨T₁, hT₁, hc₁⟩ := hall t (htopics ▸ ht)
    obtain ⟨T₀, hT₀, hc₀, -⟩ := hfewer t T₁ hT₁
    exact ⟨T₀, hT₀, hc₀.trans hc₁⟩

theorem dropParticipant_sound {um : Bool} {p : Nat} {P : Participant} (h : Sound s)
    (hover : HandedOver um p s) (hP : s.registry.participants p = some P) :
    ∃ s', s.dropParticipant um p P = some s' ∧ Sound s' ∧ s'.found = s.foundOthers p ∧
      s'.associations = s.associations ∧ Fewer s.registry s'.registry ∧
      ∀ t T, s'.registry.topics t = some T → T.creator ≠ p := by
  have hentries : ∀ k, ∀ entry ∈ s.endpointsOf k p, s.found k entry.1 = some entry.2 :=
    fun k entry hmem => (mem_endpoints h).mp (List.mem_filter.mp hmem).1
  have hnodup : ∀ k, ((s.endpointsOf k p).map Prod.fst).Nodup :=
    fun k => (h.distinct k).sublist (List.filter_sublist.map _)
  obtain ⟨r₁, heq₁, hlinked₁, hused₁, hfewer₁, hparticipants₁, hdesc₁⟩ :=
    dropReferences_linked (hnodup .writer) (hentries .writer) h.linked h.used
  obtain ⟨r₂, heq₂, hlinked₂, hused₂, hfewer₂, hparticipants₂, hdesc₂⟩ :=
    dropReferences_linked (k := .reader) (hnodup .reader)
      (fun entry hmem => by simpa [dropping] using hentries .reader entry hmem) hlinked₁ hused₁
  rw [dropping_endpointsOf h] at hlinked₂
  have hfewer : Fewer s.registry r₂ := hfewer₁.trans hfewer₂
  have hdesc : ∀ d D', r₂.descriptions d = some D' →
      ∃ D, s.registry.descriptions d = some D ∧ D.topics = D'.topics := by
    intro d D' hD'
    obtain ⟨D₁, hD₁, htopics₁⟩ := hdesc₂ d D' hD'
    obtain ⟨D, hD, htopics⟩ := hdesc₁ d D₁ hD₁
    exact ⟨D, hD, htopics.trans htopics₁⟩
  have hhanded₂ := hover.handed h hfewer hdesc
  have hparticipants : r₂.participants = s.registry.participants :=
    hparticipants₂.trans hparticipants₁
  have hP₂ : r₂.participants p = some P := by rw [hparticipants, hP]
  obtain ⟨r₃, heq₃, hlinked₃, hused₃, hhanded₃, hfewer₃, ⟨P₃, hP₃, hnil₃⟩, hparticipants₃, hdesc₃⟩ :
      ∃ r₃, (if um then P.topicRefs.foldlM (fun r t => r.removeTopic p t) r₂ else some r₂) = some r₃ ∧
        Linked r₃ (s.foundOthers p) ∧ Used r₃ ∧ Handed p r₃ (s.foundOthers p) ∧ Fewer r₂ r₃ ∧
        (∃ P', r₃.participants p = some P' ∧ P'.topicRefs = []) ∧
        (∀ p', p' ≠ p → r₃.participants p' = r₂.participants p') ∧
        ∀ d, r₂.descriptions d = none → r₃.descriptions d = none := by
    cases um with
    | true => exact removeTopics_linked hlinked₂ hused₂ hhanded₂ hP₂ rfl (h.topicRefs p P hP)
    | false =>
      have hnil : P.topicRefs = [] := (hover.topics.resolve_left Bool.false_ne_true) P hP
      exact ⟨r₂, rfl, hlinked₂, hused₂, hhanded₂, Fewer.refl r₂, ⟨P, hP₂, hnil⟩, fun _ _ => rfl,
        fun _ hd => hd⟩
  obtain ⟨hlinked₄, hcreator⟩ := deleteParticipant_linked hlinked₃ hused₃ hhanded₃ hP₃ hnil₃
    fun k e x hx => (foundOthers_eq_some.mp hx).2
  let s' : Domain δ := { s with
    registry := r₃.setParticipant p none
    endpoints := fun k => (s.endpoints k).filter fun entry => entry.2.participant ≠ p }
  have hothers : ∀ p', p' ≠ p → s'.registry.participants p' = s.registry.participants p' := by
    intro p' hp'
    have hupdate : s'.registry.participants p' = r₃.participants p' := update_of_ne hp' _ _
    rw [hupdate, hparticipants₃ p' hp', hparticipants]
  have hgone : s'.registry.participants p = none := update_self ..
  have hdistinct : ∀ k, ((s'.endpoints k).map Prod.fst).Nodup :=
    fun k => (h.distinct k).sublist (List.filter_sublist.map _)
  have hfound : s'.found = s.foundOthers p := by
    funext k e
    refine Option.ext fun x => ?_
    rw [foundOthers_eq_some, ← mem_endpoints h]
    change (s'.endpoints k).lookup e = some x ↔ _
    rw [← AssociationList.mem_iff_lookup (hdistinct k), List.mem_filter, decide_eq_true_eq]
  refine ⟨s', ?_, ⟨by rw [hfound]; exact hlinked₄, hused₃, fun i hi => ?_, hdistinct,
    fun p' P' hP' => ?_⟩, hfound, rfl, hfewer.trans hfewer₃, hcreator⟩
  · unfold Domain.dropParticipant
    simp only [heq₁, heq₂, Option.bind_eq_bind, Option.bind_some]
    cases um with
    | true =>
      rw [if_pos rfl] at heq₃
      rw [if_pos rfl, heq₃]
      rfl
    | false =>
      cases heq₃
      rfl
  · obtain ⟨hpi, hti, hdi, hei⟩ := h.fresh i hi
    refine ⟨?_, fewer_none (hfewer.trans hfewer₃) hti, hdesc₃ i ?_, fun k => ?_⟩
    · by_cases hp : i = p
      · rw [hp, hgone]
      · rw [hothers i hp, hpi]
    · refine Option.eq_none_iff_forall_ne_some.mpr fun D' hD' => ?_
      obtain ⟨D, hD, -⟩ := hdesc i D' hD'
      rw [hdi] at hD
      cases hD
    · rw [hfound, Domain.foundOthers, hei k]
      rfl
  · by_cases hp : p' = p
    · rw [hp, hgone] at hP'
      cases hP'
    · rw [hothers p' hp] at hP'
      exact h.topicRefs p' P' hP'

end

end OpenDDS.Source.InfoRepo
