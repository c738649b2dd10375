import OpenDDS.Source.InfoRepoLinks

/-!
# What a call on a domain keeps

Every call that adds something keeps the pointers right, whatever it is given. So does removing
a publication or subscription. Removing a topic or a participant does it under a condition:
`LastUnused` for a topic, `HandedOver` for a participant.
-/
namespace OpenDDS.Source.InfoRepo

open QosMatching

variable {δ : Type} {r r' : Registry} {E : Kind → Nat → Option (Endpoint δ)} {k : Kind}
  {p t d e : Nat} {P : Participant} {T : Topic} {D : Description} {x : Endpoint δ}

section

def including (k : Kind) (e : Nat) (x : Endpoint δ) (E : Kind → Nat → Option (Endpoint δ)) :
    Kind → Nat → Option (Endpoint δ) :=
  fun k' e' => if k' = k ∧ e' = e then some x else E k' e'

theorem addReference_eq (hT : r.topics t = some T) (hD : r.descriptions T.description = some D) :
    ∃ r', r.addReference k t e = some r' ∧
      Rereferenced (fun es => es ++ [e]) k t T.description r r' := by
  unfold Registry.addReference
  simp only [hT, hD, Option.bind_eq_bind, Option.bind_some]
  cases k with
  | writer => exact ⟨_, rfl, rereferenced_writer hT⟩
  | reader => exact ⟨_, rfl, rereferenced_reader hT hD⟩

theorem addReference_linked (h : Linked r E) (hused : Used r) (hT : r.topics x.topic = some T)
    (hp : (r.participants x.participant).isSome) (hnew : E k e = none) :
    ∃ r', r.addReference k x.topic e = some r' ∧ Linked r' (including k e x E) ∧ Used r' ∧
      SameShape r r' ∧ r'.participants = r.participants := by
  obtain ⟨D, hD, -⟩ := h.description _ T hT
  obtain ⟨r', heq, hrefs⟩ := addReference_eq (k := k) (e := e) hT hD
  -- The one reference that comes.
  have hmem : ∀ (comes : Prop) [Decidable comes] (es : List Nat) e',
      e' ∈ (if comes then es ++ [e] else es) ↔ e' ∈ es ∨ comes ∧ e' = e := by
    intro comes _ es e'
    split_ifs with hcomes
    · simp [hcomes]
    · simp [hcomes]
  have hold : ∀ k' e' x', E k' e' = some x' → including k e x E k' e' = some x' := by
    intro k' e' x' hx'
    unfold including
    rw [if_neg]
    · exact hx'
    · rintro ⟨rfl, rfl⟩
      rw [hnew] at hx'
      cases hx'
  refine ⟨r', heq, hrefs.shape.linked h (fun k' e' x' hx' => ?_) (fun t T' k' e' hT' he' => ?_)
    (fun t T' D' e' hT' hD' he' => ?_) (fun d D' hD' e' he' => ?_), fun t T' hT' hremoved => ?_,
    hrefs.shape, hrefs.participants⟩
  · unfold including at hx'
    rw [hrefs.participants, hrefs.topics]
    split_ifs at hx' with hboth
    · cases hx'
      rw [hT]
      exact ⟨hp, _, rfl, (hmem _ _ e').mpr (.inr ⟨⟨rfl, hboth.1⟩, hboth.2⟩)⟩
    · obtain ⟨hp', T₀, hT₀, he'⟩ := h.endpoint k' e' x' hx'
      rw [hT₀]
      exact ⟨hp', _, rfl, (hmem _ _ e').mpr (.inl he')⟩
  · rw [hrefs.topics] at hT'
    obtain ⟨T₀, hT₀, rfl⟩ := Option.map_eq_some_iff.mp hT'
    rcases (hmem _ _ e').mp he' with he₀ | ⟨⟨rfl, rfl⟩, rfl⟩
    · obtain ⟨x', hx', htopic⟩ := h.ref t T₀ k' e' hT₀ he₀
      exact ⟨x', hold k' e' x' hx', htopic⟩
    · exact ⟨x, if_pos ⟨rfl, rfl⟩, rfl⟩
  · rw [hrefs.topics] at hT'
    obtain ⟨T₀, hT₀, rfl⟩ := Option.map_eq_some_iff.mp hT'
    rw [hrefs.descriptions] at hD'
    obtain ⟨D₀, hD₀, rfl⟩ := Option.map_eq_some_iff.mp hD'
    rcases (hmem _ _ e').mp he' with he₀ | ⟨⟨rfl, rfl⟩, rfl⟩
    · obtain ⟨D₁, hD₁, -, hreaders⟩ := h.description t T₀ hT₀
      obtain rfl : D₀ = D₁ := Option.some.inj (hD₀.symm.trans hD₁)
      exact (hmem _ _ e').mpr (.inl (hreaders e' he₀))
    · rw [hT] at hT₀
      cases hT₀
      exact (hmem _ _ e').mpr (.inr ⟨⟨rfl, rfl⟩, rfl⟩)
  · rw [hrefs.descriptions] at hD'
    obtain ⟨D₀, hD₀, rfl⟩ := Option.map_eq_some_iff.mp hD'
    rcases (hmem _ _ e').mp he' with he₀ | ⟨⟨rfl, rfl⟩, rfl⟩
    · obtain ⟨x', T₀, hx', hT₀, hd⟩ := h.subscriptions d D₀ hD₀ e' he₀
      obtain ⟨T', hT', -, hd', -⟩ := hrefs.shape.topic hT₀
      exact ⟨x', T', hold .reader e' x' hx', hT', hd'.trans hd⟩
    · obtain ⟨T', hT', -, hd', -⟩ := hrefs.shape.topic hT
      exact ⟨x, T', if_pos ⟨rfl, rfl⟩, hT', hd'⟩
  · rw [hrefs.topics] at hT'
    obtain ⟨T₀, hT₀, rfl⟩ := Option.map_eq_some_iff.mp hT'
    have hbusy := hused t T₀ hT₀ hremoved
    by_contra hunused
    rw [Bool.not_eq_false, unused_iff] at hunused
    have hnone : T₀.unused = true := by
      refine unused_iff.mpr fun k' => List.eq_nil_iff_forall_not_mem.mpr fun e' he' => ?_
      exact List.eq_nil_iff_forall_not_mem.mp (hunused k') e' ((hmem _ _ e').mpr (.inl he'))
    rw [hnone] at hbusy
    cases hbusy

theorem insertTopic_linked (h : Linked r E) (hused : Used r) (hP : r.participants p = some P)
    (hnew : r.topics t = none) {ds : List Nat}
    (hds : ∀ d', d' ∈ ds ↔ d' ∈ r.topicDescriptions ∨ d' = d)
    (hD : r.descriptions d = some D ∨ r.descriptions d = none ∧ D.topics = [] ∧
      D.subscriptionRefs = []) :
    Linked (Registry.insertTopic p t d P D { r with topicDescriptions := ds }) E ∧
      Used (Registry.insertTopic p t d P D { r with topicDescriptions := ds }) := by
  set r' := Registry.insertTopic p t d P D { r with topicDescriptions := ds }
  have htopics : ∀ t', r'.topics t' = if t' = t then some ⟨p, d, fun _ => [], false⟩
      else r.topics t' := fun t' => Function.update_apply r.topics t _ t'
  have hdescriptions : ∀ d', r'.descriptions d' = if d' = d then
      some { D with topics := D.topics ++ [t] } else r.descriptions d' :=
    fun d' => Function.update_apply r.descriptions d _ d'
  have hparticipants : ∀ p', r'.participants p' = if p' = p then
      some { P with topicRefs := P.topicRefs ++ [t] } else r.participants p' :=
    fun p' => Function.update_apply r.participants p _ p'
  have hold : ∀ t' T, r.topics t' = some T → r'.topics t' = some T := by
    intro t' T hT
    rw [htopics, if_neg]
    · exact hT
    · rintro rfl
      rw [hnew] at hT
      cases hT
  -- What the description was, as seen from a topic.
  have hD' : ∀ D', r.descriptions d = some D' → D' = D := by
    intro D' hD'
    rcases hD with hD | ⟨hnone, -⟩
    · rw [hD] at hD'
      cases hD'
      rfl
    · rw [hnone] at hD'
      cases hD'
  refine ⟨⟨fun k e x hx => ?_, fun t' T k e hT he => ?_, fun t' => ?_, fun t' T hT => ?_,
    fun t' T hT => ?_, fun p' P' t' hP' ht' => ?_, fun d' => ?_, fun d' D' hD'' => ?_,
    fun d' D' hD'' e he => ?_⟩, fun t' T hT hremoved => ?_⟩
  · obtain ⟨hp, T, hT, he⟩ := h.endpoint k e x hx
    refine ⟨?_, T, hold _ T hT, he⟩
    rw [hparticipants]
    split_ifs
    · rfl
    · exact hp
  · rw [htopics] at hT
    split_ifs at hT with ht
    · cases hT
      cases he
    · exact h.ref t' T k e hT he
  · have hmap : r'.idToTopicMap = r.idToTopicMap ++ [t] := rfl
    rw [hmap, List.mem_append, List.mem_singleton, h.mapped, htopics]
    split_ifs with ht
    · simp [ht]
    · simp [ht]
  · rw [htopics] at hT
    rw [hparticipants]
    split_ifs at hT with ht
    · cases hT
      exact ⟨_, if_pos rfl, by simp [ht]⟩
    · obtain ⟨P', hP', hlisted⟩ := h.creator t' T hT
      split_ifs with hp
      · rw [hp, hP] at hP'
        cases hP'
        exact ⟨_, rfl, by simp [ht, hlisted]⟩
      · exact ⟨P', hP', hlisted⟩
  · rw [htopics] at hT
    rw [hdescriptions]
    split_ifs at hT with ht
    · cases hT
      exact ⟨_, if_pos rfl, by simp [ht], fun e he => absurd he List.not_mem_nil⟩
    · obtain ⟨D', hD'', hlisted, hreaders⟩ := h.description t' T hT
      split_ifs with hd
      · rw [hd] at hD''
        cases hD' D' hD''
        exact ⟨_, rfl, by simp [ht, hlisted], hreaders⟩
      · exact ⟨D', hD'', hlisted, hreaders⟩
  · rw [hparticipants] at hP'
    have hownedby : ∀ P₀, r.participants p' = some P₀ → t' ∈ P₀.topicRefs →
        ∃ T, r'.topics t' = some T ∧ T.creator = p' := by
      intro P₀ hP₀ hmem
      obtain ⟨T, hT, hcreator⟩ := h.owned p' P₀ t' hP₀ hmem
      exact ⟨T, hold t' T hT, hcreator⟩
    split_ifs at hP' with hp
    · cases hP'
      rcases List.mem_append.mp ht' with hmem | heq
      · exact hownedby P (hp ▸ hP) hmem
      · rw [List.mem_singleton.mp heq]
        exact ⟨_, by rw [htopics, if_pos rfl], hp.symm⟩
    · exact hownedby P' hP' ht'
  · have hset : r'.topicDescriptions = ds := rfl
    rw [hset, hds, h.described, hdescriptions]
    split_ifs with hd
    · simp [hd]
    · simp [hd]
  · rw [hdescriptions] at hD''
    have htopic : ∀ D₀, r.descriptions d' = some D₀ → ∀ t' ∈ D₀.topics,
        ∃ T, r'.topics t' = some T ∧ T.description = d' := by
      intro D₀ hD₀ t' ht'
      obtain ⟨T, hT, hd⟩ := (h.topics d' D₀ hD₀).2 t' ht'
      exact ⟨T, hold t' T hT, hd⟩
    split_ifs at hD'' with hd
    · cases hD''
      refine ⟨by simp, fun t' ht' => ?_⟩
      rcases List.mem_append.mp ht' with hmem | heq
      · rcases hD with hD | ⟨-, hnil, -⟩
        · exact htopic D (hd ▸ hD) t' hmem
        · rw [hnil] at hmem
          cases hmem
      · rw [List.mem_singleton.mp heq]
        exact ⟨_, by rw [htopics, if_pos rfl], hd.symm⟩
    · exact ⟨(h.topics d' D' hD'').1, htopic D' hD''⟩
  · rw [hdescriptions] at hD''
    have hsubs : ∀ D₀, r.descriptions d' = some D₀ → e ∈ D₀.subscriptionRefs →
        ∃ x T, E .reader e = some x ∧ r'.topics x.topic = some T ∧ T.description = d' := by
      intro D₀ hD₀ he
      obtain ⟨x, T, hx, hT, hd⟩ := h.subscriptions d' D₀ hD₀ e he
      exact ⟨x, T, hx, hold _ T hT, hd⟩
    split_ifs at hD'' with hd
    · cases hD''
      rcases hD with hD | ⟨-, -, hnil⟩
      · exact hsubs D (hd ▸ hD) he
      · rw [hnil] at he
        cases he
    · exact hsubs D' hD'' he
  · rw [htopics] at hT
    split_ifs at hT with ht
    · cases hT
      cases hremoved
    · exact hused t' T hT hremoved

theorem findTopicDescription_eq_some {name : String}
    (h : r.findTopicDescription name = some (d, D)) :
    r.descriptions d = some D ∧ d ∈ r.topicDescriptions := by
  obtain ⟨d', hmem, hfound⟩ := List.exists_of_findSome?_eq_some h
  obtain ⟨D', hD', heq⟩ := Option.bind_eq_some_iff.mp hfound
  split_ifs at heq
  cases heq
  exact ⟨hD', hmem⟩

/-- Either nothing happens, or a topic is put into a description that exists or is new. -/
theorem addTopic_cases {name dataTypeName : String} (hnew : r.descriptions t = none) :
    r.addTopic p t name dataTypeName = r ∨ ∃ P d D ds, r.participants p = some P ∧
      (∀ d', d' ∈ ds ↔ d' ∈ r.topicDescriptions ∨ d' = d) ∧
      (r.descriptions d = some D ∨ d = t ∧ r.descriptions d = none ∧ D.topics = [] ∧
        D.subscriptionRefs = []) ∧
      r.addTopic p t name dataTypeName =
        Registry.insertTopic p t d P D { r with topicDescriptions := ds } := by
  unfold Registry.addTopic
  cases hP : r.participants p with
  | none => exact .inl rfl
  | some P =>
    cases hfind : r.findTopicDescription name with
    | none =>
      refine .inr ⟨P, t, ⟨name, dataTypeName, [], []⟩, r.topicDescriptions ++ [t], rfl, fun d' => ?_,
        .inr ⟨rfl, hnew, rfl, rfl⟩, rfl⟩
      rw [List.mem_append, List.mem_singleton]
    | some found =>
      obtain ⟨d, D⟩ := found
      obtain ⟨hD, hmem⟩ := findTopicDescription_eq_some hfind
      by_cases htype : D.dataTypeName = dataTypeName
      · refine .inr ⟨P, d, D, r.topicDescriptions, rfl, fun d' => ?_, .inl hD, ?_⟩
        · constructor
          · exact .inl
          · rintro (hmem' | rfl)
            · exact hmem'
            · exact hmem
        · simp only [htype, ne_eq, not_true_eq_false, if_false]
      · refine .inl ?_
        simp only [ne_eq, htype, not_false_eq_true, if_true]

theorem addTopic_linked {name dataTypeName : String} (h : Linked r E) (hused : Used r)
    (hnew : r.topics t = none) (hnewD : r.descriptions t = none) :
    Linked (r.addTopic p t name dataTypeName) E ∧ Used (r.addTopic p t name dataTypeName) := by
  rcases addTopic_cases hnewD with heq | ⟨P, d, D, ds, hP, hds, hD, heq⟩
  · rw [heq]
    exact ⟨h, hused⟩
  · rw [heq]
    exact insertTopic_linked h hused hP hnew hds (hD.imp_right fun hD => hD.2)

end

section

/-- The endpoints without some of a kind. -/
def dropping (k : Kind) (es : List Nat) (E : Kind → Nat → Option (Endpoint δ)) :
    Kind → Nat → Option (Endpoint δ) :=
  fun k' e' => if k' = k ∧ e' ∈ es then none else E k' e'

theorem dropping_without (k : Kind) (e : Nat) (es : List Nat) (E : Kind → Nat → Option (Endpoint δ)) :
    dropping k es (without k e E) = dropping k (e :: es) E := by
  funext k' e'
  unfold dropping without
  by_cases hk : k' = k
  · by_cases he : e' = e
    · simp [hk, he]
    · simp [hk, he]
  · simp [hk]

theorem dropReferences_linked {entries : List (Nat × Endpoint δ)}
    (hnodup : (entries.map Prod.fst).Nodup) (hE : ∀ entry ∈ entries, E k entry.1 = some entry.2)
    (h : Linked r E) (hused : Used r) :
    ∃ r', entries.foldlM (fun r entry => r.dropReference k entry.2.topic entry.1) r = some r' ∧
      Linked r' (dropping k (entries.map Prod.fst) E) ∧ Used r' ∧ Fewer r r' ∧
      r'.participants = r.participants ∧
      ∀ d D', r'.descriptions d = some D' → ∃ D, r.descriptions d = some D ∧ D.topics = D'.topics := by
  induction entries generalizing r E with
  | nil =>
    have hnone : dropping k [] E = E := by
      funext k' e'
      simp [dropping]
    exact ⟨r, rfl, by rwa [List.map_nil, hnone], hused, Fewer.refl r, rfl, fun d D' hD' => ⟨D', hD', rfl⟩⟩
  | cons entry rest ih =>
    rw [List.map_cons, List.nodup_cons] at hnodup
    obtain ⟨r₁, heq₁, hlinked₁, hused₁, hfewer₁, hparticipants₁, hdesc₁⟩ :=
      dropReference_linked h hused (hE entry List.mem_cons_self)
    have hE₁ : ∀ other ∈ rest, without k entry.1 E k other.1 = some other.2 := by
      intro other hmem
      refine without_eq_some.mpr ⟨?_, hE other (List.mem_cons_of_mem _ hmem)⟩
      rintro ⟨-, heq⟩
      exact hnodup.1 (heq ▸ List.mem_map_of_mem hmem)
    obtain ⟨r₂, heq₂, hlinked₂, hused₂, hfewer₂, hparticipants₂, hdesc₂⟩ :=
      ih hnodup.2 hE₁ hlinked₁ hused₁
    rw [dropping_without] at hlinked₂
    refine ⟨r₂, ?_, hlinked₂, hused₂, hfewer₁.trans hfewer₂, hparticipants₂.trans hparticipants₁,
      fun d D' hD' => ?_⟩
    · rw [List.foldlM_cons, heq₁]
      exact heq₂
    · obtain ⟨D₁, hD₁, htopics₁⟩ := hdesc₂ d D' hD'
      obtain ⟨D, hD, htopics⟩ := hdesc₁ d D₁ hD₁
      exact ⟨D, hD, htopics.trans htopics₁⟩

/-- The topics of `p` are not in use, nor is any topic whose description has only topics of `p`. -/
structure Handed (p : Nat) (r : Registry) (E : Kind → Nat → Option (Endpoint δ)) : Prop where
  users : ∀ k e x T, E k e = some x → r.topics x.topic = some T → T.creator ≠ p
  descriptions : ∀ d D, r.descriptions d = some D →
    (∀ t ∈ D.topics, ∃ T, r.topics t = some T ∧ T.creator = p) →
    ∀ k e x T, E k e = some x → r.topics x.topic = some T → T.description ≠ d

theorem unused_of_linked (h : Linked r E) (hT : r.topics t = some T)
    (hnone : ∀ k e x, E k e = some x → x.topic ≠ t) : T.unused = true := by
  refine unused_iff.mpr fun k => List.eq_nil_iff_forall_not_mem.mpr fun e he => ?_
  obtain ⟨x, hx, htopic⟩ := h.ref t T k e hT he
  exact hnone k e x hx htopic

section

variable (h : Linked r E) (hused : Used r) (hhanded : Handed p r E) (hP : r.participants p = some P)
include h hused hhanded hP

theorem removeTopics_linked {ts : List Nat} (hts : P.topicRefs = ts) (hnodup : ts.Nodup) :
    ∃ r', ts.foldlM (fun r t => r.removeTopic p t) r = some r' ∧ Linked r' E ∧ Used r' ∧
      Handed p r' E ∧ Fewer r r' ∧ (∃ P', r'.participants p = some P' ∧ P'.topicRefs = []) ∧
      (∀ p', p' ≠ p → r'.participants p' = r.participants p') ∧
      ∀ d, r.descriptions d = none → r'.descriptions d = none := by
  induction ts generalizing r P with
  | nil => exact ⟨r, rfl, h, hused, hhanded, Fewer.refl r, ⟨P, hP, hts⟩, fun _ _ => rfl, fun _ hd => hd⟩
  | cons t ts ih =>
    rw [List.nodup_cons] at hnodup
    have hmem : t ∈ P.topicRefs := by
      rw [hts]
      exact List.mem_cons_self
    obtain ⟨T, hT, hcreator⟩ := h.owned p P t hP hmem
    have hremoved : T.removed = false := by
      obtain ⟨P₀, hP₀, hlisted⟩ := h.creator t T hT
      rw [hcreator, hP] at hP₀
      cases hP₀
      exact hlisted.mp hmem
    have hlast : LastUnused t r := by
      intro T₀ D hT₀ hD honly t' T' hT' hd
      refine unused_of_linked h hT' ?_
      rintro k e x hx rfl
      refine hhanded.descriptions _ D hD (fun t₁ ht₁ => ?_) k e x T' hx hT' hd
      rw [honly t₁ ht₁]
      exact ⟨T, hT, hcreator⟩
    obtain ⟨r₁, P₁, heq₁, hlinked₁, hused₁, hfewer₁, hP₁, hparticipants₁, hothers₁, hdesc₁⟩ :=
      removeTopic_linked h hused hT hcreator hremoved hlast
    rw [hP] at hP₁
    cases hP₁
    have hhanded₁ : Handed p r₁ E := by
      refine ⟨fun k e x T' hx hT' => ?_, fun d D' hD' hall k e x T' hx hT' => ?_⟩
      · obtain ⟨T₀, hT₀, hc, -⟩ := hfewer₁ _ T' hT'
        rw [← hc]
        exact hhanded.users k e x T₀ hx hT₀
      · obtain ⟨T₀, hT₀, -, hd⟩ := hfewer₁ _ T' hT'
        obtain ⟨D, hD, htopics⟩ := hdesc₁ d D' hD'
        rw [← hd]
        refine hhanded.descriptions d D hD (fun t₁ ht₁ => ?_) k e x T₀ hx hT₀
        by_cases ht : t₁ = t
        · exact ⟨T, ht ▸ hT, hcreator⟩
        · obtain ⟨T₁, hT₁, hc₁⟩ := hall t₁ (by
            rw [htopics]
            exact List.mem_filter.mpr ⟨ht₁, by simpa using ht⟩)
          rw [hothers₁ t₁ ht] at hT₁
          exact ⟨T₁, hT₁, hc₁⟩
    have hrefs : P.topicRefs.filter (· ≠ t) = ts := by
      rw [hts, List.filter_cons_of_neg (by simp), List.filter_eq_self]
      intro t' ht'
      have hne : t' ≠ t := fun heq => hnodup.1 (heq ▸ ht')
      simpa using hne
    have hPr₁ : r₁.participants p = some { P with topicRefs := P.topicRefs.filter (· ≠ t) } := by
      rw [hparticipants₁, if_pos rfl]
    obtain ⟨r₂, heq₂, hlinked₂, hused₂, hhanded₂, hfewer₂, hP₂, hparticipants₂, hdesc₂⟩ :=
      ih hlinked₁ hused₁ hhanded₁ hPr₁ hrefs hnodup.2
    refine ⟨r₂, ?_, hlinked₂, hused₂, hhanded₂, hfewer₁.trans hfewer₂, hP₂, fun p' hp' => ?_,
      fun d hd => hdesc₂ d ?_⟩
    · rw [List.foldlM_cons, heq₁]
      exact heq₂
    · rw [hparticipants₂ p' hp', hparticipants₁, if_neg hp']
    · refine Option.eq_none_iff_forall_ne_some.mpr fun D' hD' => ?_
      obtain ⟨D, hD, -⟩ := hdesc₁ d D' hD'
      rw [hd] at hD
      cases hD

theorem deleteParticipant_linked (hts : P.topicRefs = [])
    (hE : ∀ k e x, E k e = some x → x.participant ≠ p) :
    Linked (r.setParticipant p none) E ∧ ∀ t T, r.topics t = some T → T.creator ≠ p := by
  have hcreator : ∀ t T, r.topics t = some T → T.creator ≠ p := by
    intro t T hT hc
    have hunused : T.unused = true := by
      refine unused_of_linked h hT ?_
      rintro k e x hx rfl
      exact hhanded.users k e x T hx hT hc
    obtain ⟨P', hP', hlisted⟩ := h.creator t T hT
    rw [hc, hP] at hP'
    cases hP'
    rw [hts] at hlisted
    have hremoved : T.removed = true := by
      by_contra hremoved
      cases hlisted.mpr (Bool.eq_false_iff.mpr hremoved)
    rw [hused t T hT hremoved] at hunused
    cases hunused
  have hparticipants : ∀ p', p' ≠ p → (r.setParticipant p none).participants p' = r.participants p' :=
    fun p' hp' => Function.update_of_ne hp' _ _
  refine ⟨⟨fun k e x hx => ?_, h.ref, h.mapped, fun t T hT => ?_, h.description,
    fun p' P' t hP' ht => ?_, h.described, h.topics, h.subscriptions⟩, hcreator⟩
  · rw [hparticipants _ (hE k e x hx)]
    exact h.endpoint k e x hx
  · rw [hparticipants _ (hcreator t T hT)]
    exact h.creator t T hT
  · by_cases hp : p' = p
    · subst hp
      have hnone : (r.setParticipant p' none).participants p' = none := Function.update_self ..
      rw [hnone] at hP'
      cases hP'
    · rw [hparticipants p' hp] at hP'
      exact h.owned p' P' t hP' ht

end

end

end OpenDDS.Source.InfoRepo
