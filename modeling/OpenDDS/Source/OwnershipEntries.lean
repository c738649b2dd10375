import OpenDDS.Source.OwnershipManager

/-!
# The entry of one instance

What `select_owner` and `remove_writer` do to the entry of an instance: the writers it
records are those before, with the one writer entered or taken out, and the entry stays in
order. Promotion takes the first candidate and relies on that order; an insertion that
does not sort leaves it only because it changes nothing.
-/
namespace OpenDDS.Source.OwnershipManager

def Descending (ws : List WriterInfo) : Prop :=
  ws.Pairwise fun w v => v.ownershipStrength ≤ w.ownershipStrength

/-- Writers that can stand together on a list of candidates. -/
structure Listed (ws : List WriterInfo) : Prop where
  known : ∀ w ∈ ws, w.pubId ≠ guidUnknown
  distinct : (ws.map WriterInfo.pubId).Nodup

structure Valid (infos : OwnershipWriterInfos) : Prop extends Listed infos.candidates where
  vacant : infos.owner.pubId = guidUnknown → infos.candidates = []
  apart : ∀ c ∈ infos.candidates, c.pubId ≠ infos.owner.pubId
  descending : Descending infos.candidates
  leading : ∀ c ∈ infos.candidates, c.ownershipStrength ≤ infos.owner.ownershipStrength

/-- The writers of an entry, each with its strength. -/
def Recorded (infos : OwnershipWriterInfos) (w : WriterInfo) : Prop :=
  w.pubId ≠ guidUnknown ∧ (w = infos.owner ∨ w ∈ infos.candidates)

/-- The effect of an operation of a writer on what is recorded. -/
def Replaces (infos infos' : OwnershipWriterInfos) (pubId : Nat) (entered : WriterInfo → Prop) : Prop :=
  ∀ w, Recorded infos' w ↔ entered w ∨ Recorded infos w ∧ w.pubId ≠ pubId

variable {sorting : Sorting} {states : Nat → InstanceState} {infos : OwnershipWriterInfos}
  {ws : List WriterInfo} {w : WriterInfo} {pubId : Nat} {strength : Int}

theorem Listed.perm {vs : List WriterInfo} (h : Listed ws) (p : vs.Perm ws) : Listed vs where
  known w hw := h.known w (p.mem_iff.mp hw)
  distinct := (p.map WriterInfo.pubId).nodup_iff.mpr h.distinct

theorem Listed.sublist {vs : List WriterInfo} (h : Listed ws) (sub : vs.Sublist ws) : Listed vs where
  known w hw := h.known w (sub.subset hw)
  distinct := (sub.map WriterInfo.pubId).nodup h.distinct

theorem Listed.eq_of_pubId (h : Listed ws) {v : WriterInfo} (hw : w ∈ ws) (hv : v ∈ ws)
    (heq : w.pubId = v.pubId) : w = v :=
  List.inj_on_of_nodup_map h.distinct hw hv heq

theorem Listed.concat (h : Listed ws) (known : w.pubId ≠ guidUnknown)
    (fresh : ∀ v ∈ ws, v.pubId ≠ w.pubId) : Listed (ws ++ [w]) where
  known v hv := by
    rcases List.mem_append.mp hv with hv | hv
    · exact h.known v hv
    · rw [List.mem_singleton.mp hv]
      exact known
  distinct := by
    rw [List.map_append, List.map_singleton, ← List.concat_eq_append]
    apply List.Nodup.concat _ h.distinct
    intro hmem
    obtain ⟨v, hv, heq⟩ := List.mem_map.mp hmem
    exact fresh v hv heq

theorem Valid.listed_with_owner (h : Valid infos) (known : infos.owner.pubId ≠ guidUnknown) :
    Listed (infos.candidates ++ [infos.owner]) :=
  h.toListed.concat known h.apart

section

theorem promote_instanceStates (sorting : Sorting) (infos : OwnershipWriterInfos) (sort : Bool) :
    (promote sorting infos sort).instanceStates = infos.instanceStates := by
  unfold promote
  split <;> rfl

theorem promote_spec (sorting : Sorting) (infos : OwnershipWriterInfos) {sort : Bool}
    (listed : Listed infos.candidates) (order : sort = true ∨ Descending infos.candidates) :
    Valid (promote sorting infos sort) ∧
      ∀ w, Recorded (promote sorting infos sort) w ↔ w ∈ infos.candidates := by
  obtain ⟨ws, hws⟩ : ∃ ws, ws = if sort then sorting.sort infos.candidates else infos.candidates :=
    ⟨_, rfl⟩
  have hperm : ws.Perm infos.candidates := by
    rw [hws]
    split
    · exact sorting.perm _
    · exact List.Perm.refl _
  have hdesc : Descending ws := by
    rw [hws]
    split
    · exact sorting.descending _
    · rename_i hsort
      exact order.resolve_left hsort
  have hlisted : Listed ws := listed.perm hperm
  unfold promote
  rw [← hws]
  cases ws with
  | nil =>
    have hnil : infos.candidates = [] := hperm.nil_eq.symm
    refine ⟨⟨⟨?_, ?_⟩, ?_, ?_, ?_, ?_⟩, ?_⟩
    · intro w hw
      exact absurd hw List.not_mem_nil
    · exact List.nodup_nil
    · intro _
      rfl
    · intro w hw
      exact absurd hw List.not_mem_nil
    · exact List.Pairwise.nil
    · intro w hw
      exact absurd hw List.not_mem_nil
    · intro w
      rw [hnil]
      constructor
      · rintro ⟨hknown, rfl | hmem⟩
        · exact absurd rfl hknown
        · exact hmem
      · intro hmem
        exact absurd hmem List.not_mem_nil
  | cons first rest =>
    have hfirst : first.pubId ≠ guidUnknown := hlisted.known first (by simp)
    have hnodup := List.nodup_cons.mp hlisted.distinct
    have hpairs := List.pairwise_cons.mp hdesc
    refine ⟨⟨⟨?_, hnodup.2⟩, ?_, ?_, hpairs.2, hpairs.1⟩, ?_⟩
    · intro w hw
      exact hlisted.known w (List.mem_cons_of_mem _ hw)
    · intro hvacant
      exact absurd hvacant hfirst
    · intro c hc heq
      exact hnodup.1 (List.mem_map.mpr ⟨c, hc, heq⟩)
    · intro w
      rw [← hperm.mem_iff]
      constructor
      · rintro ⟨-, rfl | hmem⟩
        · exact List.mem_cons_self
        · exact List.mem_cons_of_mem _ hmem
      · intro hmem
        exact ⟨hlisted.known w hmem, List.mem_cons.mp hmem⟩

end

section

theorem removeCandidate_sublist : (removeCandidate pubId ws).Sublist ws := by
  induction ws with
  | nil => exact List.Sublist.slnil
  | cons c rest ih =>
    unfold removeCandidate
    split
    · exact List.sublist_cons_self c rest
    · exact ih.cons_cons c

theorem mem_removeCandidate (listed : Listed ws) :
    w ∈ removeCandidate pubId ws ↔ w ∈ ws ∧ w.pubId ≠ pubId := by
  induction ws with
  | nil => simp [removeCandidate]
  | cons c rest ih =>
    have hnodup := List.nodup_cons.mp listed.distinct
    have hrest := listed.sublist (List.sublist_cons_self c rest)
    unfold removeCandidate
    split
    · rename_i hc
      constructor
      · intro hmem
        refine ⟨List.mem_cons_of_mem _ hmem, ?_⟩
        intro heq
        exact hnodup.1 (List.mem_map.mpr ⟨w, hmem, heq.trans hc.symm⟩)
      · rintro ⟨hmem, hne⟩
        rcases List.mem_cons.mp hmem with rfl | hmem
        · exact absurd hc hne
        · exact hmem
    · rename_i hc
      rw [List.mem_cons, ih hrest, List.mem_cons]
      constructor
      · rintro (rfl | ⟨hmem, hne⟩)
        · exact ⟨.inl rfl, hc⟩
        · exact ⟨.inr hmem, hne⟩
      · rintro ⟨rfl | hmem, hne⟩
        · exact .inl rfl
        · exact .inr ⟨hmem, hne⟩

theorem updateCandidate_pubIds (pubId : Nat) (strength : Int) (ws : List WriterInfo) :
    (updateCandidate pubId strength ws).1.map WriterInfo.pubId =
      if pubId ∈ ws.map WriterInfo.pubId then ws.map WriterInfo.pubId
      else ws.map WriterInfo.pubId ++ [pubId] := by
  induction ws with
  | nil => rfl
  | cons c rest ih =>
    unfold updateCandidate
    by_cases hc : c.pubId = pubId
    · rw [if_pos hc]
      split <;> simp [hc]
    · rw [if_neg hc]
      simp only [List.map_cons, ih, List.mem_cons, Ne.symm hc, false_or]
      split <;> simp

theorem mem_updateCandidate (listed : Listed ws) :
    w ∈ (updateCandidate pubId strength ws).1 ↔
      w = ⟨pubId, strength⟩ ∨ w ∈ ws ∧ w.pubId ≠ pubId := by
  induction ws with
  | nil => simp [updateCandidate]
  | cons c rest ih =>
    have hnodup := List.nodup_cons.mp listed.distinct
    have hrest := listed.sublist (List.sublist_cons_self c rest)
    unfold updateCandidate
    by_cases hc : c.pubId = pubId
    · have hothers : ∀ v ∈ rest, v.pubId ≠ pubId := by
        intro v hv heq
        exact hnodup.1 (List.mem_map.mpr ⟨v, hv, heq.trans hc.symm⟩)
      have hhead : ∀ v : WriterInfo, v = ⟨pubId, strength⟩ →
          (w ∈ v :: rest ↔ w = ⟨pubId, strength⟩ ∨ w ∈ c :: rest ∧ w.pubId ≠ pubId) := by
        rintro v rfl
        rw [List.mem_cons, List.mem_cons]
        constructor
        · rintro (heq | hmem)
          · exact .inl heq
          · exact .inr ⟨.inr hmem, hothers w hmem⟩
        · rintro (heq | ⟨rfl | hmem, hne⟩)
          · exact .inl heq
          · exact absurd hc hne
          · exact .inr hmem
      rw [if_pos hc]
      split
      · exact hhead _ (by rw [hc])
      · rename_i hsame
        exact hhead c (by rw [← hc, ← not_not.mp hsame])
    · rw [if_neg hc]
      simp only [List.mem_cons, ih hrest]
      constructor
      · rintro (rfl | heq | ⟨hmem, hne⟩)
        · exact .inr ⟨.inl rfl, hc⟩
        · exact .inl heq
        · exact .inr ⟨.inr hmem, hne⟩
      · rintro (heq | ⟨rfl | hmem, hne⟩)
        · exact .inr (.inl heq)
        · exact .inl rfl
        · exact .inr (.inr ⟨hmem, hne⟩)

theorem updateCandidate_unsorted (h : (updateCandidate pubId strength ws).2 = false) :
    (updateCandidate pubId strength ws).1 = ws ∧ ⟨pubId, strength⟩ ∈ ws := by
  induction ws with
  | nil => cases h
  | cons c rest ih =>
    unfold updateCandidate at h ⊢
    by_cases hc : c.pubId = pubId
    · rw [if_pos hc] at h ⊢
      split at h
      · cases h
      · rename_i hsame
        rw [if_neg hsame]
        have heq : c = ⟨pubId, strength⟩ := by rw [← hc, ← not_not.mp hsame]
        exact ⟨rfl, by rw [heq]; exact List.mem_cons_self⟩
    · rw [if_neg hc] at h ⊢
      obtain ⟨hrest, hmem⟩ := ih h
      exact ⟨congrArg (c :: ·) hrest, List.mem_cons_of_mem _ hmem⟩

theorem updateCandidate_listed (listed : Listed ws) (known : pubId ≠ guidUnknown) :
    Listed (updateCandidate pubId strength ws).1 where
  known v hv := by
    rcases (mem_updateCandidate listed).mp hv with rfl | ⟨hmem, -⟩
    · exact known
    · exact listed.known v hmem
  distinct := by
    rw [updateCandidate_pubIds]
    split
    · exact listed.distinct
    · rename_i hnew
      rw [← List.concat_eq_append]
      exact List.Nodup.concat hnew listed.distinct

theorem reevaluated_perm :
    (reevaluated sorting ws pubId strength).Perm (updateCandidate pubId strength ws).1 := by
  unfold reevaluated
  dsimp only
  split
  · exact sorting.perm _
  · exact List.Perm.refl _

theorem reevaluated_descending (order : Descending ws ∨ ⟨pubId, strength⟩ ∉ ws) :
    Descending (reevaluated sorting ws pubId strength) := by
  unfold reevaluated
  dsimp only
  split
  · exact sorting.descending _
  · rename_i hsort
    obtain ⟨hsame, hmem⟩ := updateCandidate_unsorted (Bool.eq_false_iff.mpr hsort)
    rw [hsame]
    exact order.resolve_right (not_not.mpr hmem)

theorem mem_reevaluated (listed : Listed ws) :
    w ∈ reevaluated sorting ws pubId strength ↔
      w = ⟨pubId, strength⟩ ∨ w ∈ ws ∧ w.pubId ≠ pubId := by
  rw [reevaluated_perm.mem_iff]
  exact mem_updateCandidate listed

theorem reevaluated_listed (listed : Listed ws) (known : pubId ≠ guidUnknown) :
    Listed (reevaluated sorting ws pubId strength) :=
  (updateCandidate_listed listed known).perm reevaluated_perm

end

section

/-- An operation of the writer `pubId` on an entry: it stays in order, the records of the
other writers stay, and a change of the owner is broadcast. -/
structure Elects (states : Nat → InstanceState) (infos : OwnershipWriterInfos) (pubId : Nat)
    (entered : WriterInfo → Prop) (election : Election) : Prop where
  valid : Valid election.infos
  instanceStates : election.infos.instanceStates = infos.instanceStates
  replaces : Replaces infos election.infos pubId entered
  broadcast : election.states = broadcastNewOwner states infos election.infos.owner.pubId ∨
    election.states = states ∧ election.infos.owner.pubId = infos.owner.pubId

/-- `select_owner` tells the owner to the instance states. -/
def Announces (infos : OwnershipWriterInfos) (pubId : Nat) (strength : Int) : Prop :=
  infos.owner.pubId = guidUnknown ∨
    (infos.owner.pubId = pubId ∧ strength < infos.owner.ownershipStrength) ∨
    (infos.owner.pubId ≠ pubId ∧ infos.owner.ownershipStrength < strength)

theorem broadcastNewOwner_congr {infos' : OwnershipWriterInfos} (owner : Nat)
    (same : infos'.instanceStates = infos.instanceStates) :
    broadcastNewOwner states infos' owner = broadcastNewOwner states infos owner := by
  unfold broadcastNewOwner
  rw [same]

theorem removeOwner_elects {candidates : List WriterInfo} {sort : Bool} {result : Bool}
    {entered : WriterInfo → Prop} (listed : Listed candidates)
    (order : sort = true ∨ Descending candidates)
    (mem : ∀ w, w ∈ candidates ↔ entered w ∨ Recorded infos w ∧ w.pubId ≠ pubId) :
    Elects states infos pubId entered
      ⟨(removeOwner sorting states { infos with candidates := candidates } sort).1,
       (removeOwner sorting states { infos with candidates := candidates } sort).2, result⟩ := by
  have hstates := promote_instanceStates sorting { infos with candidates := candidates } sort
  obtain ⟨hvalid, hrecorded⟩ :=
    promote_spec sorting { infos with candidates := candidates } listed order
  constructor
  · exact hvalid
  · exact hstates
  · intro w
    exact (hrecorded w).trans (mem w)
  · exact .inl (broadcastNewOwner_congr _ hstates)

theorem removeWriterFrom_elects (h : Valid infos) :
    Elects states infos pubId (fun _ => False) (removeWriterFrom sorting states infos pubId) := by
  unfold removeWriterFrom
  by_cases howner : infos.owner.pubId = pubId
  · rw [if_pos howner]
    apply removeOwner_elects h.toListed (.inr h.descending)
    intro w
    rw [false_or]
    constructor
    · intro hmem
      refine ⟨⟨h.known w hmem, .inr hmem⟩, ?_⟩
      rw [← howner]
      exact h.apart w hmem
    · rintro ⟨⟨-, rfl | hmem⟩, hne⟩
      · exact absurd howner hne
      · exact hmem
  · rw [if_neg howner]
    have hsub : (removeCandidate pubId infos.candidates).Sublist infos.candidates :=
      removeCandidate_sublist
    constructor
    · refine ⟨h.toListed.sublist hsub, ?_, ?_, ?_, ?_⟩
      · intro hvacant
        have hnil := h.vacant hvacant
        exact List.sublist_nil.mp (hnil ▸ hsub)
      · intro c hc
        exact h.apart c (hsub.subset hc)
      · exact h.descending.sublist hsub
      · intro c hc
        exact h.leading c (hsub.subset hc)
    · rfl
    · intro w
      unfold Recorded
      rw [false_or, mem_removeCandidate h.toListed]
      constructor
      · rintro ⟨hknown, rfl | ⟨hmem, hne⟩⟩
        · exact ⟨⟨hknown, .inl rfl⟩, howner⟩
        · exact ⟨⟨hknown, .inr hmem⟩, hne⟩
      · rintro ⟨⟨hknown, heq | hmem⟩, hne⟩
        · exact ⟨hknown, .inl heq⟩
        · exact ⟨hknown, .inr ⟨hmem, hne⟩⟩
    · exact .inr ⟨rfl, rfl⟩

theorem Valid.stronger_notMem (h : Valid infos)
    (stronger : infos.owner.ownershipStrength < strength) :
    (⟨pubId, strength⟩ : WriterInfo) ∉ infos.candidates ++ [infos.owner] := by
  intro hmem
  rcases List.mem_append.mp hmem with hmem | hmem
  · have hle := h.leading _ hmem
    dsimp only at hle
    omega
  · have heq := List.mem_singleton.mp hmem
    rw [← heq] at stronger
    exact lt_irrefl _ stronger

theorem challenge_elects (h : Valid infos) (known : pubId ≠ guidUnknown)
    (owned : infos.owner.pubId ≠ guidUnknown) (other : infos.owner.pubId ≠ pubId) :
    Elects states infos pubId (· = ⟨pubId, strength⟩)
      (challenge sorting states infos pubId strength) := by
  unfold challenge
  by_cases hstronger : strength > infos.owner.ownershipStrength
  · rw [if_pos hstronger]
    have hlisted := h.listed_with_owner owned
    apply removeOwner_elects
    · exact reevaluated_listed hlisted known
    · exact .inr (reevaluated_descending (.inr (h.stronger_notMem hstronger)))
    · intro w
      rw [mem_reevaluated hlisted, List.mem_append, List.mem_singleton]
      constructor
      · rintro (heq | ⟨hmem, hne⟩)
        · exact .inl heq
        · rcases hmem with hmem | heq
          · exact .inr ⟨⟨h.known w hmem, .inr hmem⟩, hne⟩
          · exact .inr ⟨⟨heq ▸ owned, .inl heq⟩, hne⟩
      · rintro (heq | ⟨⟨-, heq | hmem⟩, hne⟩)
        · exact .inl heq
        · exact .inr ⟨.inr heq, hne⟩
        · exact .inr ⟨.inl hmem, hne⟩
  · rw [if_neg hstronger]
    have hmem : ∀ w, w ∈ reevaluated sorting infos.candidates pubId strength ↔
        w = ⟨pubId, strength⟩ ∨ w ∈ infos.candidates ∧ w.pubId ≠ pubId := by
      intro w
      exact mem_reevaluated h.toListed
    constructor
    · refine ⟨reevaluated_listed h.toListed known, ?_, ?_, ?_, ?_⟩
      · intro hvacant
        exact absurd hvacant owned
      · intro c hc
        rcases (hmem c).mp hc with rfl | ⟨hmem, -⟩
        · exact Ne.symm other
        · exact h.apart c hmem
      · exact reevaluated_descending (.inl h.descending)
      · intro c hc
        rcases (hmem c).mp hc with rfl | ⟨hmem, -⟩
        · exact not_lt.mp hstronger
        · exact h.leading c hmem
    · rfl
    · intro w
      unfold Recorded
      rw [hmem]
      constructor
      · rintro ⟨hknown, heq | heq | ⟨hmem, hne⟩⟩
        · exact .inr ⟨⟨hknown, .inl heq⟩, heq ▸ other⟩
        · exact .inl heq
        · exact .inr ⟨⟨hknown, .inr hmem⟩, hne⟩
      · rintro (heq | ⟨⟨hknown, heq | hmem⟩, hne⟩)
        · exact ⟨heq ▸ known, .inr (.inl heq)⟩
        · exact ⟨hknown, .inl heq⟩
        · exact ⟨hknown, .inr (.inr ⟨hmem, hne⟩)⟩
    · exact .inr ⟨rfl, rfl⟩

theorem selectFrom_elects (h : Valid infos) (known : pubId ≠ guidUnknown) :
    Elects states infos pubId (· = ⟨pubId, strength⟩)
      (selectFrom sorting states infos pubId strength) := by
  unfold selectFrom
  by_cases hvacant : infos.owner.pubId = guidUnknown
  · rw [if_pos hvacant]
    have hnil := h.vacant hvacant
    constructor
    · refine ⟨h.toListed, fun _ => hnil, ?_, h.descending, ?_⟩
      · intro c hc
        exact absurd (hnil ▸ hc) List.not_mem_nil
      · intro c hc
        exact absurd (hnil ▸ hc) List.not_mem_nil
    · rfl
    · intro w
      unfold Recorded
      rw [hnil]
      constructor
      · rintro ⟨-, heq | hmem⟩
        · exact .inl heq
        · exact absurd hmem List.not_mem_nil
      · rintro (heq | ⟨⟨hknown, heq | hmem⟩, -⟩)
        · exact ⟨heq ▸ known, .inl heq⟩
        · exact absurd (heq ▸ hvacant) hknown
        · exact absurd hmem List.not_mem_nil
    · exact .inl rfl
  · rw [if_neg hvacant]
    by_cases howner : infos.owner.pubId = pubId
    · rw [if_pos howner]
      have hothers : ∀ c ∈ infos.candidates, c.pubId ≠ pubId := by
        intro c hc
        rw [← howner]
        exact h.apart c hc
      by_cases hraised : infos.owner.ownershipStrength ≤ strength
      · rw [if_pos hraised]
        constructor
        · refine ⟨h.toListed, h.vacant, h.apart, h.descending, ?_⟩
          intro c hc
          exact (h.leading c hc).trans hraised
        · rfl
        · intro w
          rw [howner]
          constructor
          · rintro ⟨hknown, heq | hmem⟩
            · exact .inl heq
            · exact .inr ⟨⟨hknown, .inr hmem⟩, hothers w hmem⟩
          · rintro (heq | ⟨⟨hknown, heq | hmem⟩, hne⟩)
            · exact ⟨heq ▸ known, .inl heq⟩
            · exact absurd (heq ▸ howner) hne
            · exact ⟨hknown, .inr hmem⟩
        · exact .inr ⟨rfl, rfl⟩
      · rw [if_neg hraised]
        apply removeOwner_elects
        · exact h.toListed.concat known hothers
        · exact .inl rfl
        · intro w
          rw [List.mem_append, List.mem_singleton]
          constructor
          · rintro (hmem | heq)
            · exact .inr ⟨⟨h.known w hmem, .inr hmem⟩, hothers w hmem⟩
            · exact .inl heq
          · rintro (heq | ⟨⟨-, heq | hmem⟩, hne⟩)
            · exact .inr heq
            · exact absurd (heq ▸ howner) hne
            · exact .inl hmem
    · rw [if_neg howner]
      exact challenge_elects h known hvacant howner

theorem selectFrom_result (sorting : Sorting) (states : Nat → InstanceState)
    (infos : OwnershipWriterInfos) (pubId : Nat) (strength : Int) :
    (selectFrom sorting states infos pubId strength).result = true ↔
    (selectFrom sorting states infos pubId strength).infos.owner.pubId = pubId := by
  unfold selectFrom challenge
  split
  · simp
  · split
    · rename_i howner
      split <;> simp [howner]
    · split <;> simp

theorem selectFrom_announces (h : Announces infos pubId strength) :
    (selectFrom sorting states infos pubId strength).states =
      broadcastNewOwner states infos
        (selectFrom sorting states infos pubId strength).infos.owner.pubId := by
  unfold selectFrom
  by_cases hvacant : infos.owner.pubId = guidUnknown
  · rw [if_pos hvacant]
  · rw [if_neg hvacant]
    rcases h with hvac | ⟨howner, hlowered⟩ | ⟨hother, hstronger⟩
    · exact absurd hvac hvacant
    · rw [if_pos howner, if_neg (not_le.mpr hlowered)]
      exact broadcastNewOwner_congr _ (promote_instanceStates _ _ _)
    · rw [if_neg hother, challenge, if_pos hstronger]
      exact broadcastNewOwner_congr _ (promote_instanceStates _ _ _)

theorem selectFrom_silent (sorting : Sorting) (states : Nat → InstanceState)
    (h : ¬ Announces infos pubId strength) :
    (selectFrom sorting states infos pubId strength).states = states ∧
      (selectFrom sorting states infos pubId strength).infos.owner.pubId = infos.owner.pubId := by
  have hvacant : infos.owner.pubId ≠ guidUnknown := fun hvacant => h (.inl hvacant)
  unfold selectFrom
  rw [if_neg hvacant]
  by_cases howner : infos.owner.pubId = pubId
  · have hraised : infos.owner.ownershipStrength ≤ strength := by
      by_contra hlowered
      exact h (.inr (.inl ⟨howner, not_le.mp hlowered⟩))
    rw [if_pos howner, if_pos hraised]
    exact ⟨rfl, rfl⟩
  · have hweaker : ¬ strength > infos.owner.ownershipStrength := by
      intro hstronger
      exact h (.inr (.inr ⟨howner, hstronger⟩))
    rw [if_neg howner, challenge, if_neg hweaker]
    exact ⟨rfl, rfl⟩

end

section

variable {m : Manager} {address : Nat}

theorem register_valid (h : Valid infos) : Valid (m.register infos address).1 := by
  unfold Manager.register
  split
  · exact h
  · exact ⟨h.toListed, h.vacant, h.apart, h.descending, h.leading⟩

theorem register_recorded (w : WriterInfo) :
    Recorded (m.register infos address).1 w ↔ Recorded infos w := by
  unfold Manager.register
  split <;> rfl

theorem valid_single (known : pubId ≠ guidUnknown) (listed : List Nat) :
    Valid ⟨⟨pubId, strength⟩, [], listed⟩ where
  known _ hw := absurd hw List.not_mem_nil
  distinct := List.nodup_nil
  vacant hvacant := absurd hvacant known
  apart _ hw := absurd hw List.not_mem_nil
  descending := List.Pairwise.nil
  leading _ hw := absurd hw List.not_mem_nil

theorem register_registered (h : (m.states address).registered = true) :
    m.register infos address = (infos, m.states) := by
  have hsame : { m.states address with registered := true } = m.states address := by
    rw [← h]
  unfold Manager.register
  rw [if_pos h, hsame, Function.update_eq_self]

theorem register_effects (infos : OwnershipWriterInfos) (address : Nat) :
    (∀ a, (m.states a).registered = true → ((m.register infos address).2 a).registered = true) ∧
      (∀ a, ((m.register infos address).2 a).owner = (m.states a).owner) ∧
      (∀ a ∈ (m.register infos address).1.instanceStates, a ∈ infos.instanceStates ∨
        a = address ∧ (m.states a).registered = false) ∧
      ((m.register infos address).2 address).registered = true := by
  unfold Manager.register
  refine ⟨?_, ?_, ?_, ?_⟩
  · intro a ha
    by_cases heq : a = address
    · simp [heq]
    · simpa [heq] using ha
  · intro a
    by_cases heq : a = address
    · simp [heq]
    · simp [heq]
  · intro a ha
    split at ha
    · exact .inl ha
    · rename_i hnew
      rcases List.mem_append.mp ha with ha | ha
      · exact .inl ha
      · have heq := List.mem_singleton.mp ha
        rw [heq]
        exact .inr ⟨rfl, Bool.eq_false_iff.mpr hnew⟩
  · simp

theorem register_owner (infos : OwnershipWriterInfos) (address : Nat) :
    (m.register infos address).1.owner = infos.owner := by
  unfold Manager.register
  split <;> rfl

end

section

variable {v : WriterInfo}

section

variable (h : Valid infos) (hw : Recorded infos w)
include h hw

theorem Valid.recorded_unique (hv : Recorded infos v) (same : w.pubId = v.pubId) : w = v := by
  obtain ⟨-, rfl | hw⟩ := hw <;> obtain ⟨-, rfl | hv⟩ := hv
  · rfl
  · exact absurd same.symm (h.apart v hv)
  · exact absurd same (h.apart w hw)
  · exact h.toListed.eq_of_pubId hw hv same

theorem Valid.owner_leads :
    Recorded infos infos.owner ∧ w.ownershipStrength ≤ infos.owner.ownershipStrength := by
  obtain ⟨hknown, rfl | hmem⟩ := hw
  · exact ⟨⟨hknown, .inl rfl⟩, le_refl _⟩
  · have howned : infos.owner.pubId ≠ guidUnknown := by
      intro hvacant
      rw [h.vacant hvacant] at hmem
      exact List.not_mem_nil hmem
    exact ⟨⟨howned, .inl rfl⟩, h.leading w hmem⟩

theorem Valid.owner_of_strongest (strongest : ∀ v, Recorded infos v → v.pubId ≠ w.pubId →
      v.ownershipStrength < w.ownershipStrength) : infos.owner.pubId = w.pubId := by
  obtain ⟨howner, hle⟩ := h.owner_leads hw
  by_contra hne
  have hlt := strongest _ howner hne
  omega

theorem Valid.owner_ne_of_weaker (hv : Recorded infos v)
    (weaker : w.ownershipStrength < v.ownershipStrength) : infos.owner.pubId ≠ w.pubId := by
  obtain ⟨howner, hle⟩ := h.owner_leads hv
  intro hsame
  rw [h.recorded_unique howner hw hsame] at hle
  omega

end

end

end OpenDDS.Source.OwnershipManager
