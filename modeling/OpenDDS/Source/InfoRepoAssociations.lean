import OpenDDS.Library.Folds
import OpenDDS.Source.InfoRepoInvariant

/-!
# Associations

Both ends of an association exist, and a subscription lists only publications that list it. A
publication whose client was not reached may list a subscription that does not list it. Such a
subscription must not be removed first: its end would not tell the publication.
-/
namespace OpenDDS.Source.InfoRepo

open Library QosMatching

variable {δ : Type} {s s' : Domain δ} {F F' : Kind → Nat → Option (Endpoint δ)}
  {a a' a'' : Associations} {k k' : Kind} {p e e' w r : Nat} {es es' : List Nat} {x : Endpoint δ}

structure Associated (F : Kind → Nat → Option (Endpoint δ)) (a : Associations) : Prop where
  ends : ∀ k e e', e' ∈ a k e → (F k e).isSome ∧ (F k.other e').isSome
  returned : ∀ w r, w ∈ a .reader r → r ∈ a .writer w

theorem mem_insert {y z : Nat} :
    z ∈ a.insert k e e' k' y ↔ z ∈ a k' y ∨ (k' = k ∧ y = e) ∧ z = e' := by
  unfold Associations.insert
  split_ifs with hown
  · simp [hown]
  · simp [hown]

theorem mem_remove {y z : Nat} :
    z ∈ a.remove k e e' k' y ↔ z ∈ a k' y ∧ ¬ ((k' = k ∧ y = e) ∧ z = e') := by
  unfold Associations.remove
  split_ifs with hown
  · simp [hown]
  · simp [hown]

section

theorem Associated.associate (reached : Bool) (h : Associated F a) (hw : (F .writer w).isSome)
    (hr : (F .reader r).isSome) : Associated F (a.associate reached w r) := by
  have htold : Associated F (a.insert .writer w r) := by
    refine ⟨fun k y z hz => ?_, fun w' r' hw' => ?_⟩
    · rcases mem_insert.mp hz with hz | ⟨⟨rfl, rfl⟩, rfl⟩
      · exact h.ends k y z hz
      · exact ⟨hw, hr⟩
    · rcases mem_insert.mp hw' with hw' | ⟨⟨hk, -⟩, -⟩
      · exact mem_insert.mpr (.inl (h.returned w' r' hw'))
      · cases hk
  unfold Associations.associate
  cases reached with
  | false => exact htold
  | true =>
    rw [if_pos rfl]
    refine ⟨fun k y z hz => ?_, fun w' r' hw' => ?_⟩
    · rcases mem_insert.mp hz with hz | ⟨⟨rfl, rfl⟩, rfl⟩
      · exact htold.ends k y z hz
      · exact ⟨hr, hw⟩
    · rcases mem_insert.mp hw' with hw' | ⟨⟨-, rfl⟩, rfl⟩
      · exact mem_insert.mpr (.inl (htold.returned w' r' hw'))
      · exact mem_insert.mpr (.inl (mem_insert.mpr (.inr ⟨⟨rfl, rfl⟩, rfl⟩)))

theorem candidates_spec (h : Sound s) (hx : s.found k e = some x) :
    ∃ es, s.registry.candidates k x.topic = some es ∧ ∀ e' ∈ es, (s.found k.other e').isSome := by
  obtain ⟨-, T, hT, -⟩ := h.linked.endpoint k e x hx
  obtain ⟨D, hD, -⟩ := h.linked.description _ T hT
  unfold Registry.candidates
  simp only [hT, hD, Option.bind_eq_bind, Option.bind_some]
  cases k with
  | writer =>
    refine ⟨D.subscriptionRefs, rfl, fun e' he' => ?_⟩
    obtain ⟨y, -, hy, -⟩ := h.linked.subscriptions _ D hD e' he'
    exact Option.isSome_iff_exists.mpr ⟨y, hy⟩
  | reader =>
    have hlists : ∀ ts : List Nat, (∀ t ∈ ts, ∃ T, s.registry.topics t = some T) →
        ∃ lists, (ts.mapM fun t => (s.registry.topics t).map fun T => T.refs .writer) = some lists ∧
          ∀ es ∈ lists, ∀ e' ∈ es, (s.found .writer e').isSome := by
      intro ts hts
      induction ts with
      | nil => exact ⟨[], rfl, nofun⟩
      | cons t ts ih =>
        obtain ⟨T, hT⟩ := hts t List.mem_cons_self
        obtain ⟨lists, heq, hlists⟩ := ih fun t' ht' => hts t' (List.mem_cons_of_mem t ht')
        refine ⟨T.refs .writer :: lists, ?_, fun es hes e' he' => ?_⟩
        · rw [List.mapM_cons, hT, heq]
          rfl
        · rcases List.mem_cons.mp hes with rfl | hes
          · obtain ⟨y, hy, -⟩ := h.linked.ref t T .writer e' hT he'
            exact Option.isSome_iff_exists.mpr ⟨y, hy⟩
          · exact hlists es hes e' he'
    obtain ⟨lists, heq, hall⟩ := hlists D.topics fun t ht =>
      (((h.linked.topics _ D hD).2 t ht).imp fun _ hT => hT.1)
    refine ⟨lists.flatten, by rw [heq]; rfl, fun e' he' => ?_⟩
    obtain ⟨es, hes, he'⟩ := List.mem_flatten.mp he'
    exact hall es hes e' he'

variable (wildMatch : List Char → List Char → Bool) (reached : Nat → Bool)

theorem tryAssociate_spec (h : Sound s) (ha : Associated s.found a) (hx : s.found k e = some x)
    (he' : (s.found k.other e').isSome) :
    ∃ a', s.tryAssociate wildMatch k e x reached a e' = some a' ∧ Associated s.found a' := by
  obtain ⟨y, hy⟩ := Option.isSome_iff_exists.mp he'
  obtain ⟨P, hP⟩ := Option.isSome_iff_exists.mp (h.linked.endpoint k e x hx).1
  obtain ⟨P', hP'⟩ := Option.isSome_iff_exists.mp (h.linked.endpoint k.other e' y hy).1
  have he : (s.found k e).isSome := Option.isSome_iff_exists.mpr ⟨x, hx⟩
  unfold Domain.tryAssociate
  simp only [show s.endpoint k.other e' = some y from hy, hP, hP', Option.bind_eq_bind,
    Option.bind_some]
  split_ifs
  · exact ⟨a, rfl, ha⟩
  · cases k with
    | writer => exact ⟨_, rfl, ha.associate (reached e') he he'⟩
    | reader => exact ⟨_, rfl, ha.associate (reached e') he' he⟩

theorem tryAssociateEndpoint_spec (h : Sound s) (ha : Associated s.found s.associations)
    (hx : s.found k e = some x) : ∃ a, s.tryAssociateEndpoint wildMatch k e x reached =
      some { s with associations := a } ∧ Associated s.found a := by
  obtain ⟨es, heq, hes⟩ := candidates_spec h hx
  obtain ⟨a, hloop, ha'⟩ : ∃ a, es.foldlM (s.tryAssociate wildMatch k e x reached) s.associations =
      some a ∧ Associated s.found a := by
    refine Folds.foldlM_pure (m := Option) (fun _ a => Associated s.found a) ha ?_
    intro done e' rest a hsplit ha
    exact tryAssociate_spec wildMatch reached h ha hx (hes e' (by rw [hsplit]; simp))
  refine ⟨a, ?_, ha'⟩
  unfold Domain.tryAssociateEndpoint
  simp only [heq, Option.bind_eq_bind, Option.bind_some]
  exact Option.bind_eq_some_iff.mpr ⟨a, hloop, rfl⟩

variable (k) (t : Nat) (qos : EndpointQos δ)

theorem addEndpoint_sound (h : Sound s)
    (hstep : s.addEndpoint wildMatch k p t qos reached = some s') : Sound s' := by
  unfold Domain.addEndpoint at hstep
  split_ifs at hstep with hguard
  · obtain ⟨s₁, heq, hsound, -⟩ := insertEndpoint_sound (x := (⟨p, t, qos⟩ : Endpoint δ)) k h
      hguard.1 hguard.2
    obtain ⟨s₂, heq₂, hassociate⟩ := Option.bind_eq_some_iff.mp hstep
    cases heq.symm.trans heq₂
    obtain ⟨es, -, hassociate⟩ := Option.bind_eq_some_iff.mp hassociate
    obtain ⟨a, -, hassociate⟩ := Option.bind_eq_some_iff.mp hassociate
    cases hassociate
    exact hsound.associations a
  · cases hstep
    exact h

theorem addEndpoint_associated (h : Sound s) (ha : Associated s.found s.associations) :
    ∃ s', s.addEndpoint wildMatch k p t qos reached = some s' ∧
      Associated s'.found s'.associations := by
  unfold Domain.addEndpoint
  split_ifs with hguard
  · obtain ⟨s₁, heq, hsound, hfound, hsame⟩ :=
      insertEndpoint_sound (x := (⟨p, t, qos⟩ : Endpoint δ)) k h hguard.1 hguard.2
    have hx : s₁.found k s.next = some ⟨p, t, qos⟩ := by
      rw [hfound, including, if_pos ⟨rfl, rfl⟩]
    have ha₁ : Associated s₁.found s₁.associations := by
      have hmore : ∀ k' e', (s.found k' e').isSome → (s₁.found k' e').isSome := by
        intro k' e' he'
        rw [hfound, including]
        split_ifs
        · rfl
        · exact he'
      rw [hsame]
      refine ⟨fun k' y z hz => ?_, ha.returned⟩
      obtain ⟨hy, hz'⟩ := ha.ends k' y z hz
      exact ⟨hmore _ _ hy, hmore _ _ hz'⟩
    obtain ⟨a, heq₂, ha'⟩ := tryAssociateEndpoint_spec wildMatch reached hsound ha₁ hx
    refine ⟨{ s₁ with associations := a }, ?_, ha'⟩
    simp only [heq, Option.bind_eq_bind, Option.bind_some]
    exact heq₂
  · exact ⟨s, rfl, ha⟩

end

section

/-- The associations without those of some endpoints. -/
def Detached (k : Kind) (es : List Nat) (a a' : Associations) : Prop :=
  ∀ k' y z, z ∈ a' k' y ↔ z ∈ a k' y ∧ ¬ (k' = k ∧ y ∈ es) ∧ ¬ (k' = k.other ∧ z ∈ es)

theorem Detached.trans (h : Detached k es a a') (h' : Detached k es' a' a'') :
    Detached k (es ++ es') a a'' := by
  intro k' y z
  rw [h' k' y z, h k' y z, List.mem_append, List.mem_append]
  tauto

theorem Detached.associated (hd : Detached k es a a') (h : Associated F a)
    (hF : ∀ k' y, ¬ (k' = k ∧ y ∈ es) → (F k' y).isSome → (F' k' y).isSome) : Associated F' a' := by
  refine ⟨fun k' y z hz => ?_, fun w r hw => ?_⟩
  · obtain ⟨hz, hy, hother⟩ := (hd k' y z).mp hz
    obtain ⟨hsome, hsome'⟩ := h.ends k' y z hz
    refine ⟨hF k' y hy hsome, hF k'.other z ?_ hsome'⟩
    rintro ⟨rfl, hmem⟩
    exact hother ⟨(Kind.other_other k').symm, hmem⟩
  · obtain ⟨hw, hr, hother⟩ := (hd .reader r w).mp hw
    refine (hd .writer w r).mpr ⟨h.returned w r hw, ?_, ?_⟩
    · rintro ⟨rfl, hmem⟩
      exact hother ⟨rfl, hmem⟩
    · rintro ⟨hk, hmem⟩
      cases k with
      | writer => cases hk
      | reader => exact hr ⟨rfl, hmem⟩

theorem removeAssociations_spec (ha : Associated s.found a)
    (hlisted : k = .reader → ∀ w, e ∈ a .writer w → w ∈ a .reader e) :
    ∃ a', s.removeAssociations k e a = some a' ∧ Detached k [e] a a' := by
  have hback : ∀ y, e ∈ a k.other y → y ∈ a k e := by
    intro y hy
    cases k with
    | writer => exact ha.returned e y hy
    | reader => exact hlisted rfl y hy
  obtain ⟨a', hloop, hmem⟩ : ∃ a', s.removeAssociations k e a = some a' ∧ ∀ k' y z, z ∈ a' k' y ↔
      z ∈ a k' y ∧ ¬ ((k' = k ∧ y = e) ∧ z ∈ a k e) ∧ ¬ ((k' = k.other ∧ z = e) ∧ y ∈ a k e) := by
    refine Folds.foldlM_pure (m := Option) (fun done (a' : Associations) => ∀ k' y z, z ∈ a' k' y ↔
      z ∈ a k' y ∧ ¬ ((k' = k ∧ y = e) ∧ z ∈ done) ∧ ¬ ((k' = k.other ∧ z = e) ∧ y ∈ done)) (by simp) ?_
    intro done e' rest a₁ hsplit hinv
    have hsome : (s.endpoint k.other e').isSome := (ha.ends k e e' (by rw [hsplit]; simp)).2
    refine ⟨_, if_pos hsome, fun k' y z => ?_⟩
    rw [mem_remove, mem_remove, hinv, List.mem_append, List.mem_append, List.mem_singleton,
      List.mem_singleton]
    tauto
  refine ⟨a', hloop, fun k' y z => ?_⟩
  rw [hmem, List.mem_singleton, List.mem_singleton]
  apply and_congr_right
  intro hz
  apply and_congr
  · apply not_congr
    refine and_iff_left_of_imp ?_
    rintro ⟨rfl, rfl⟩
    exact hz
  · apply not_congr
    refine and_iff_left_of_imp ?_
    rintro ⟨rfl, rfl⟩
    exact hback y hz

theorem removeAssociations_all (k : Kind) (entries : List (Nat × Endpoint δ)) (ha : Associated s.found a)
    (hlisted : k = .reader → ∀ entry ∈ entries, ∀ w, entry.1 ∈ a .writer w → w ∈ a .reader entry.1) :
    ∃ a', entries.foldlM (fun a entry => s.removeAssociations k entry.1 a) a = some a' ∧
      Detached k (entries.map Prod.fst) a a' := by
  refine Folds.foldlM_pure (m := Option)
    (fun done a' => Detached k (done.map Prod.fst) a a') (fun k' y z => by simp) ?_
  intro done entry rest a₁ hsplit hd
  have hlisted₁ : k = .reader → ∀ w, entry.1 ∈ a₁ .writer w → w ∈ a₁ .reader entry.1 := by
    rintro rfl w hw
    obtain ⟨hw, -, hnew⟩ := (hd .writer w entry.1).mp hw
    refine (hd .reader entry.1 w).mpr ⟨hlisted rfl entry (by rw [hsplit]; simp) w hw, ?_, nofun⟩
    rintro ⟨-, hmem⟩
    exact hnew ⟨rfl, hmem⟩
  obtain ⟨a₂, heq, hd₂⟩ :=
    removeAssociations_spec (hd.associated ha fun _ _ _ hsome => hsome) hlisted₁
  refine ⟨a₂, heq, ?_⟩
  rw [List.map_append]
  exact hd.trans hd₂

/-- The subscription `r` lists the publication `w` if `w` lists it. -/
def Domain.Answers (s : Domain δ) (w r : Nat) : Prop :=
  r ∈ s.associations .writer w → w ∈ s.associations .reader r

/-- Either nothing happens, or the endpoint of the participant is removed. -/
theorem removeEndpoint_cases (k : Kind) (p e : Nat) (s : Domain δ) :
    s.removeEndpoint k p e = some s ∨ ∃ x, s.found k e = some x ∧ x.participant = p ∧
      s.removeEndpoint k p e = (s.removeAssociations k e s.associations).bind fun a =>
        { s with associations := a }.dropEndpoint k e x := by
  unfold Domain.removeEndpoint
  split
  · rename_i P x hP hx
    split_ifs with howner
    · exact .inr ⟨x, hx, howner, rfl⟩
    · exact .inl rfl
  · exact .inl rfl

theorem removeEndpoint_sound (h : Sound s) (hstep : s.removeEndpoint k p e = some s') : Sound s' := by
  rcases removeEndpoint_cases k p e s with hsame | ⟨x, hx, -, heq⟩
  · rw [hsame] at hstep
    cases hstep
    exact h
  · rw [heq] at hstep
    obtain ⟨a, -, hdrop⟩ := Option.bind_eq_some_iff.mp hstep
    obtain ⟨s₁, heq₁, hsound, -⟩ := dropEndpoint_sound (h.associations a) hx
    cases heq₁.symm.trans hdrop
    exact hsound

theorem removeEndpoint_associated (h : Sound s) (ha : Associated s.found s.associations)
    (hanswers : k = .reader → ∀ x, s.endpoint k e = some x → x.participant = p → ∀ w, s.Answers w e) :
    ∃ s', s.removeEndpoint k p e = some s' ∧ Associated s'.found s'.associations := by
  rcases removeEndpoint_cases k p e s with hsame | ⟨x, hx, howner, heq⟩
  · exact ⟨s, hsame, ha⟩
  · obtain ⟨a, hremove, hd⟩ := removeAssociations_spec (k := k) (e := e) ha fun hk w =>
      hanswers hk x hx howner w
    obtain ⟨s₁, heq₁, -, hfound, hsame⟩ := dropEndpoint_sound (h.associations a) hx
    refine ⟨s₁, ?_, ?_⟩
    · rw [heq, hremove]
      exact heq₁
    · rw [hsame, hfound]
      refine hd.associated ha fun k' y hy hsome => ?_
      unfold without
      rwa [if_neg fun hboth => hy ⟨hboth.1, List.mem_singleton.mpr hboth.2⟩]

theorem removeTopic_associated {t : Nat} (h : Sound s) (hidle : LastIdle t s)
    (ha : Associated s.found s.associations) : ∃ s', s.removeTopic p t = some s' ∧
      Associated s'.found s'.associations := by
  obtain ⟨s', heq, -, hfound, hsame⟩ := removeTopic_sound p t h hidle
  exact ⟨s', heq, by rw [hfound, hsame]; exact ha⟩

theorem foundOthers_of_absent (h : Sound s) (hP : s.registry.participants p = none) :
    s.found = s.foundOthers p ∧ ∀ t T, s.registry.topics t = some T → T.creator ≠ p := by
  constructor
  · funext k e
    cases hx : s.found k e with
    | none => simp [Domain.foundOthers, hx]
    | some x =>
      refine (foundOthers_eq_some.mpr ⟨hx, ?_⟩).symm
      rintro rfl
      obtain ⟨hsome, -⟩ := h.linked.endpoint k e x hx
      rw [hP] at hsome
      cases hsome
  · rintro t T hT rfl
    obtain ⟨P, hP', -⟩ := h.linked.creator t T hT
    rw [hP] at hP'
    cases hP'

theorem removeParticipant_sound {um : Bool} (h : Sound s) (hover : HandedOver um p s)
    (hstep : s.removeParticipant um p = some s') :
    Sound s' ∧ s'.found = s.foundOthers p ∧ Fewer s.registry s'.registry ∧
      ∀ t T, s'.registry.topics t = some T → T.creator ≠ p := by
  unfold Domain.removeParticipant at hstep
  cases hP : s.registry.participants p with
  | none =>
    rw [hP] at hstep
    cases hstep
    exact ⟨h, (foundOthers_of_absent h hP).1, Fewer.refl _, (foundOthers_of_absent h hP).2⟩
  | some P =>
    rw [hP] at hstep
    obtain ⟨a, -, hdrop⟩ := Option.bind_eq_some_iff.mp hstep
    obtain ⟨s₁, heq₁, hsound, hfound, -, hfewer, hcreator⟩ := dropParticipant_sound (h.associations a)
      (⟨hover.topics, hover.users, hover.descriptions⟩ : HandedOver um p { s with associations := a }) hP
    cases heq₁.symm.trans hdrop
    exact ⟨hsound, hfound, hfewer, hcreator⟩

theorem removeParticipant_associated {um : Bool} (h : Sound s)
    (ha : Associated s.found s.associations) (hover : HandedOver um p s)
    (hanswers : ∀ r x, s.endpoint .reader r = some x → x.participant = p →
      ∀ w y, s.endpoint .writer w = some y → y.participant ≠ p → s.Answers w r) :
    ∃ s', s.removeParticipant um p = some s' ∧ Associated s'.found s'.associations := by
  unfold Domain.removeParticipant
  cases hP : s.registry.participants p with
  | none => exact ⟨s, rfl, ha⟩
  | some P =>
    obtain ⟨a₁, heq₁, hd₁⟩ := removeAssociations_all .writer (s.endpointsOf .writer p) ha nofun
    -- The publications of the participant are out when its subscriptions are dealt with.
    have hlisted : ∀ entry ∈ s.endpointsOf .reader p, ∀ w, entry.1 ∈ a₁ .writer w →
        w ∈ a₁ .reader entry.1 := by
      intro entry hentry w hw
      obtain ⟨hw, hout, -⟩ := (hd₁ .writer w entry.1).mp hw
      obtain ⟨y, hy⟩ := Option.isSome_iff_exists.mp (ha.ends .writer w entry.1 hw).1
      obtain ⟨x, hx, howner⟩ := (mem_endpointsOf h).mp (List.mem_map_of_mem (f := Prod.fst) hentry)
      have hother : w ∉ (s.endpointsOf .writer p).map Prod.fst := fun hmem => hout ⟨rfl, hmem⟩
      have hne : y.participant ≠ p := fun heq => hother ((mem_endpointsOf h).mpr ⟨y, hy, heq⟩)
      exact (hd₁ .reader entry.1 w).mpr ⟨hanswers _ x hx howner w y hy hne hw, nofun,
        fun hmem => hother hmem.2⟩
    obtain ⟨a₂, heq₂, hd₂⟩ := removeAssociations_all .reader (s.endpointsOf .reader p)
      (hd₁.associated ha fun _ _ _ hsome => hsome) fun _ => hlisted
    obtain ⟨s₁, heq₃, -, hfound, hsame, -⟩ := dropParticipant_sound (h.associations a₂)
      (⟨hover.topics, hover.users, hover.descriptions⟩ : HandedOver um p { s with associations := a₂ }) hP
    refine ⟨s₁, ?_, ?_⟩
    · simp only [Domain.removeAllAssociations, heq₁, heq₂, Option.bind_eq_bind, Option.bind_some]
      exact heq₃
    · have hfound' : s₁.found = dropping .reader ((s.endpointsOf .reader p).map Prod.fst)
          (dropping .writer ((s.endpointsOf .writer p).map Prod.fst) s.found) := by
        rw [dropping_endpointsOf h]
        exact hfound
      have hdrops : ∀ (F : Kind → Nat → Option (Endpoint δ)) k es k' y, ¬ (k' = k ∧ y ∈ es) →
          (F k' y).isSome → (dropping k es F k' y).isSome := by
        intro F k es k' y hy hsome
        unfold dropping
        rwa [if_neg hy]
      rw [hsame, hfound']
      exact hd₂.associated (hd₁.associated ha (hdrops _ _ _)) (hdrops _ _ _)

end

end OpenDDS.Source.InfoRepo
