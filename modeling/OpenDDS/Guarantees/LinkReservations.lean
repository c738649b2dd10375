import OpenDDS.Library.Run
import OpenDDS.Source.DataLink

/-!
# Reservations are one relation

The two maps of a link list the same pairs. Each operation of a map is described by the pairs that
it lists afterwards; a call edits both maps in the same way. Two calls go wrong: a first
reservation that cannot start the link leaves an empty set in `sub_map_`, and a release of an
unknown remote returns early when the link is not in use any more.
-/
namespace OpenDDS.Guarantees.LinkReservations

open Library Library.SetMap Source.DataLink

variable {ι τ : Type} [DecidableEq ι]

variable {set : ReceiveListenerSet ι τ}

section

variable {β : Type} {map : List (ι × β)} {id id' : ι} {listener : Option τ}

theorem mem_bind {value : β} : id' ∈ (Map.bind id value map).map Prod.fst ↔
    id' ∈ map.map Prod.fst ∨ id' = id := by
  unfold Map.bind
  cases hfound : map.lookup id with
  | none => simp
  | some value' =>
    constructor
    · exact .inl
    · rintro (hmem | rfl)
      · exact hmem
      · exact List.mem_map.mpr ⟨_, AssociationList.mem_of_lookup hfound, rfl⟩

theorem bind_ne_nil {value : β} : Map.bind id value map ≠ [] := by
  have hmem : id ∈ (Map.bind id value map).map Prod.fst := mem_bind.mpr (.inr rfl)
  intro hnil
  rw [hnil] at hmem
  cases hmem

theorem mem_insert : id' ∈ (ReceiveListenerSet.insert id listener set).map Prod.fst ↔
      id' ∈ set.map Prod.fst ∨ id' = id := by
  have hold : ∀ value, set.lookup id = some value →
      (id' ∈ set.map Prod.fst ↔ id' ∈ set.map Prod.fst ∨ id' = id) := by
    intro value hfound
    constructor
    · exact .inl
    · rintro (hmem | rfl)
      · exact hmem
      · exact List.mem_map.mpr ⟨_, AssociationList.mem_of_lookup hfound, rfl⟩
  unfold ReceiveListenerSet.insert
  split
  · rename_i hfound
    exact hold _ hfound
  · rename_i l hfound
    rw [← hold _ hfound, List.map_map]
    -- The ids stay the same.
    have hids : (Prod.fst ∘ fun entry : ι × Option τ =>
        if entry.1 = id then (id, some l) else entry) = Prod.fst := by
      funext entry
      by_cases hid : entry.1 = id
      · simp [hid]
      · simp [hid]
    rw [hids]
  · exact mem_bind

theorem insert_ne_nil : ReceiveListenerSet.insert id listener set ≠ [] := by
  have hmem : id ∈ (ReceiveListenerSet.insert id listener set).map Prod.fst :=
    mem_insert.mpr (.inr rfl)
  intro hnil
  rw [hnil] at hmem
  cases hmem

end

variable {l' : Link ι τ}

section

variable {l : Link ι τ} {p s p' s' : ι}

theorem lists_pubMap_insert {map : ReceiveListenerSetMap ι τ} {listener : Option τ} :
    Lists (ReceiveListenerSetMap.insert p s listener map) p' s' ↔
      Lists map p' s' ∨ (p' = p ∧ s' = s) :=
  lists_alter fun _ => mem_insert

theorem lists_subMap_insert {map : RepoIdSetMap ι} :
    Lists (RepoIdSetMap.insert s p map) s' p' ↔ Lists map s' p' ∨ (s' = s ∧ p' = p) :=
  lists_alter fun _ => mem_bind

/-- Publications are one kind of id, subscriptions the other. -/
structure Consistent (isPublication : ι → Prop) (l : Link ι τ) : Prop where
  mirrored : ∀ p s, Lists l.pubMap p s ↔ Lists l.subMap s p
  pubs : NoneEmpty l.pubMap
  subs : NoneEmpty l.subMap
  kinds : ∀ p s, Lists l.pubMap p s → isPublication p ∧ ¬ isPublication s

variable {isPublication : ι → Prop}

theorem Consistent.released (h : Consistent isPublication l) :
    l.released = true ↔ ∀ p s, ¬ Lists l.pubMap p s := by
  have hpubs := h.pubs.eq_nil
  have hsubs := h.subs.eq_nil
  have hboth : l.released = true ↔ l.pubMap = [] ∧ l.subMap = [] := by
    rw [Link.released, beq_iff_eq, Nat.add_eq_zero_iff, List.length_eq_zero_iff,
      List.length_eq_zero_iff]
  rw [hboth, hpubs, hsubs]
  constructor
  · exact And.left
  · exact fun hnone => ⟨hnone, fun s p hlists => hnone p s ((h.mirrored p s).mpr hlists)⟩

theorem Consistent.pubMap_nil (h : Consistent isPublication l) : l.pubMap = [] ↔ l.subMap = [] := by
  rw [h.pubs.eq_nil, h.subs.eq_nil]
  constructor
  · exact fun hnone s p hlists => hnone p s ((h.mirrored p s).mpr hlists)
  · exact fun hnone p s hlists => hnone s p ((h.mirrored p s).mp hlists)

/-- A link after the pair of `p` and `s` was put into both maps. -/
structure Adds (p s : ι) (l l' : Link ι τ) : Prop where
  pubMap : ∀ p' s', Lists l'.pubMap p' s' ↔ Lists l.pubMap p' s' ∨ (p' = p ∧ s' = s)
  subMap : ∀ s' p', Lists l'.subMap s' p' ↔ Lists l.subMap s' p' ∨ (s' = s ∧ p' = p)
  pubs : NoneEmpty l.pubMap → NoneEmpty l'.pubMap
  subs : NoneEmpty l.subMap → NoneEmpty l'.subMap

theorem Consistent.add (h : Consistent isPublication l) (hadds : Adds p s l l')
    (hp : isPublication p) (hs : ¬ isPublication s) : Consistent isPublication l' := by
  refine ⟨fun p' s' => ?_, hadds.pubs h.pubs, hadds.subs h.subs, fun p' s' hlists => ?_⟩
  · rw [hadds.pubMap, hadds.subMap, h.mirrored, and_comm (a := p' = p)]
  · obtain hlists | ⟨rfl, rfl⟩ := (hadds.pubMap p' s').mp hlists
    · exact h.kinds p' s' hlists
    · exact ⟨hp, hs⟩

/-- A link after the pair of `p` and `s` was taken out of both maps. -/
structure Drops (p s : ι) (l l' : Link ι τ) : Prop where
  pubMap : ∀ p' s', Lists l'.pubMap p' s' ↔ Lists l.pubMap p' s' ∧ ¬ (p' = p ∧ s' = s)
  subMap : ∀ s' p', Lists l'.subMap s' p' ↔ Lists l.subMap s' p' ∧ ¬ (s' = s ∧ p' = p)
  pubs : NoneEmpty l'.pubMap
  subs : NoneEmpty l'.subMap

theorem Consistent.drop (h : Consistent isPublication l) (hdrops : Drops p s l l') :
    Consistent isPublication l' := by
  refine ⟨fun p' s' => ?_, hdrops.pubs, hdrops.subs, fun p' s' hlists => ?_⟩
  · rw [hdrops.pubMap, hdrops.subMap, h.mirrored, and_comm (a := p' = p)]
  · exact h.kinds p' s' ((hdrops.pubMap p' s').mp hlists).1

end

section

variable {isPublication : ι → Prop} {l : Link ι τ} {remoteId localId : ι}

theorem releaseReservations_publisher (localId : ι) (hset : l.pubMap.lookup remoteId = some set) :
    ∃ l', l.releaseReservations remoteId localId =
        (l'.released, l') ∧
      l'.pubMap = (if (unbind localId set).length = 0 then
          (edit remoteId (unbind localId) l.pubMap).filter fun entry => entry.1 ≠ remoteId
        else edit remoteId (unbind localId) l.pubMap) ∧
      l'.subMap = if set.exist localId then
          (RepoIdSetMap.releasePublisher localId remoteId l.subMap).2 else l.subMap := by
  have hremove : (ReceiveListenerSet.remove localId : ReceiveListenerSet ι τ → _) = unbind localId := rfl
  unfold Link.releaseReservations Link.releaseRemotePublisher
  rw [hset]
  refine ⟨_, rfl, ?_, ?_⟩
  · simp only [hremove, removeSet]
    by_cases hlast : (unbind localId set).length = 0
    · rw [if_pos hlast, if_pos hlast]
      by_cases hfound : set.exist localId = true
      · rw [if_pos hfound]
      · rw [if_neg hfound]
    · rw [if_neg hlast, if_neg hlast]
      by_cases hfound : set.exist localId = true
      · rw [if_pos hfound]
      · rw [if_neg hfound]
  · by_cases hfound : set.exist localId = true
    · split_ifs <;> rfl
    · split_ifs <;> rfl

theorem releaseReservations_subscriber (localId : ι) {ids : RepoIdSet ι}
    (hpub : l.pubMap.lookup remoteId = none)
    (hids : l.subMap.lookup remoteId = some ids) : ∃ l', l.releaseReservations remoteId localId =
        (l'.released, l') ∧
      l'.subMap = (if (unbind localId ids).length = 0 then
          (edit remoteId (unbind localId) l.subMap).filter fun entry => entry.1 ≠ remoteId
        else edit remoteId (unbind localId) l.subMap) ∧
      l'.pubMap = if localId ∈ ids.map Prod.fst then
          (ReceiveListenerSetMap.releaseSubscriber localId remoteId l.pubMap).2 else l.pubMap := by
  unfold Link.releaseReservations Link.releaseRemoteSubscriber
  rw [hpub, hids]
  refine ⟨_, rfl, ?_, ?_⟩
  · simp only [removeSet]
    by_cases hlast : (unbind localId ids).length = 0
    · rw [if_pos hlast, if_pos hlast]
      by_cases hfound : localId ∈ ids.map Prod.fst
      · rw [if_pos hfound]
      · rw [if_neg hfound]
    · rw [if_neg hlast, if_neg hlast]
      by_cases hfound : localId ∈ ids.map Prod.fst
      · rw [if_pos hfound]
      · rw [if_neg hfound]
  · by_cases hfound : localId ∈ ids.map Prod.fst
    · split_ifs <;> rfl
    · split_ifs <;> rfl

theorem exist_iff {id : ι} : ReceiveListenerSet.exist set id = true ↔ id ∈ set.map Prod.fst := by
  constructor
  · intro hfound
    obtain ⟨listener, hlistener⟩ := Option.isSome_iff_exists.mp hfound
    exact List.mem_map.mpr ⟨_, AssociationList.mem_of_lookup hlistener, rfl⟩
  · intro hmem
    obtain ⟨⟨id, listener⟩, hentry, rfl⟩ := List.mem_map.mp hmem
    exact AssociationList.lookup_isSome hentry

theorem releasePublisher_drops (localId : ι) (h : Consistent isPublication l)
    (hset : l.pubMap.lookup remoteId = some set) :
    Drops remoteId localId l (l.releaseReservations remoteId localId).2 ∧
      (l.releaseReservations remoteId localId).1 =
        (l.releaseReservations remoteId localId).2.released := by
  have hexist : set.exist localId = true ↔ Lists l.pubMap remoteId localId := by
    rw [lists_iff_of_lookup hset, exist_iff]
  obtain ⟨l', heq, hpubMap, hsubMap⟩ := releaseReservations_publisher localId hset
  have hlookup : ∀ k, l'.pubMap.lookup k = (discard remoteId localId l.pubMap).lookup k :=
    fun k => by rw [hpubMap, lookup_edit_unbind hset]
  have hsubs : (∀ s p, Lists l'.subMap s p ↔ Lists l.subMap s p ∧ ¬ (s = localId ∧ p = remoteId)) ∧
      NoneEmpty l'.subMap := by
    by_cases hfound : set.exist localId = true
    · -- The pair is in the other map as well.
      obtain ⟨ids, hids, -⟩ := (h.mirrored _ _).mp (hexist.mp hfound)
      rw [hsubMap, if_pos hfound, RepoIdSetMap.releasePublisher, hids]
      exact ⟨fun _ _ => lists_discard, noneEmpty_discard h.subs⟩
    · rw [hsubMap, if_neg hfound]
      refine ⟨fun s p => ⟨fun hlists => ⟨hlists, ?_⟩, And.left⟩, h.subs⟩
      rintro ⟨rfl, rfl⟩
      exact hfound (hexist.mpr ((h.mirrored _ _).mpr hlists))
  rw [heq]
  refine ⟨⟨fun p s => ?_, hsubs.1, (noneEmpty_congr hlookup).mpr (noneEmpty_discard h.pubs), hsubs.2⟩, rfl⟩
  rw [lists_congr (hlookup p), lists_discard]

theorem releaseSubscriber_drops (localId : ι) {ids : RepoIdSet ι} (h : Consistent isPublication l)
    (hpub : l.pubMap.lookup remoteId = none) (hids : l.subMap.lookup remoteId = some ids) :
    Drops localId remoteId l (l.releaseReservations remoteId localId).2 ∧
      (l.releaseReservations remoteId localId).1 =
        (l.releaseReservations remoteId localId).2.released := by
  have hmem : localId ∈ ids.map Prod.fst ↔ Lists l.pubMap localId remoteId := by
    rw [h.mirrored, lists_iff_of_lookup hids]
  obtain ⟨l', heq, hsubMap, hpubMap⟩ := releaseReservations_subscriber localId hpub hids
  have hlookup : ∀ k, l'.subMap.lookup k = (discard remoteId localId l.subMap).lookup k :=
    fun k => by rw [hsubMap, lookup_edit_unbind hids]
  have hpubs : (∀ p s, Lists l'.pubMap p s ↔ Lists l.pubMap p s ∧ ¬ (p = localId ∧ s = remoteId)) ∧
      NoneEmpty l'.pubMap := by
    by_cases hfound : localId ∈ ids.map Prod.fst
    · obtain ⟨set, hset, -⟩ := hmem.mp hfound
      rw [hpubMap, if_pos hfound, ReceiveListenerSetMap.releaseSubscriber, hset]
      exact ⟨fun _ _ => lists_discard, noneEmpty_discard h.pubs⟩
    · rw [hpubMap, if_neg hfound]
      refine ⟨fun p s => ⟨fun hlists => ⟨hlists, ?_⟩, And.left⟩, h.pubs⟩
      rintro ⟨rfl, rfl⟩
      exact hfound (hmem.mpr hlists)
  rw [heq]
  refine ⟨⟨hpubs.1, fun s p => ?_, hpubs.2, (noneEmpty_congr hlookup).mpr (noneEmpty_discard h.subs)⟩, rfl⟩
  rw [lists_congr (hlookup s), lists_discard]

theorem releaseUnknown_eq (hpub : l.pubMap.lookup remoteId = none)
    (hsub : l.subMap.lookup remoteId = none) :
    l.releaseReservations remoteId localId =
      (!(listenerFor l.recvListeners localId || listenerFor l.sendListeners localId) && l.released, l) := by
  unfold Link.releaseReservations
  rw [hpub, hsub]
  simp only [← Bool.or_eq_true]
  split_ifs with hlistener
  · rw [hlistener]
    rfl
  · rw [Bool.not_eq_true] at hlistener
    rw [hlistener]
    rfl

theorem makeReservation_adds (sub pub : ι) (listener : Option τ) {started : Bool}
    (hstarted : started = true ∨ l.pubMap ≠ []) :
    (l.makeReservation sub pub listener started).1 = true ∧
      Adds pub sub l (l.makeReservation sub pub listener started).2 := by
  have hgo : ¬ l.pubMap.length = 0 ∨ started = true := by
    rw [List.length_eq_zero_iff]
    exact hstarted.symm
  unfold Link.makeReservation
  rw [if_pos hgo]
  exact ⟨rfl, fun _ _ => lists_pubMap_insert, fun _ _ => lists_subMap_insert,
    fun h => noneEmpty_alter h fun _ => insert_ne_nil, fun h => noneEmpty_alter h fun _ => bind_ne_nil⟩

theorem makeReservationForSubscription_adds (pub sub : ι) (listener : Option τ) {started : Bool}
    (hstarted : started = true ∨ l.subMap ≠ []) :
    (l.makeReservationForSubscription pub sub listener started).1 = true ∧
      Adds pub sub l (l.makeReservationForSubscription pub sub listener started).2 := by
  have hgo : ¬ l.subMap.length = 0 ∨ started = true := by
    rw [List.length_eq_zero_iff]
    exact hstarted.symm
  unfold Link.makeReservationForSubscription
  rw [if_pos hgo]
  exact ⟨rfl, fun _ _ => lists_pubMap_insert, fun _ _ => lists_subMap_insert,
    fun h => noneEmpty_alter h fun _ => insert_ne_nil, fun h => noneEmpty_alter h fun _ => bind_ne_nil⟩

theorem remove_insert_empty (s p : ι) :
    ¬ NoneEmpty (RepoIdSetMap.remove s p (RepoIdSetMap.insert s p [])) := by
  intro h
  have hset : (RepoIdSetMap.remove s p (RepoIdSetMap.insert s p [])).lookup s = some [] := by
    rw [RepoIdSetMap.remove, RepoIdSetMap.insert, lookup_edit, if_pos rfl, lookup_alter, if_pos rfl]
    simp [Map.bind, unbind]
  exact h s [] hset rfl

end

variable {result : Bool}

section

variable {isPublication : ι → Prop} {l : Link ι τ} {call : Call ι τ}

/-- A reservation is for a publication and a subscription. -/
def Conforms (isPublication : ι → Prop) : Call ι τ → Prop
  | .reserveForPublication sub pub _ _ => isPublication pub ∧ ¬ isPublication sub
  | .reserveForSubscription pub sub _ _ => isPublication pub ∧ ¬ isPublication sub
  | .release _ _ => True

/-- A first reservation starts the link, and a release that returns early leaves one in use. -/
def Sound (l : Link ι τ) : Call ι τ → Prop
  | .reserveForPublication _ _ _ started => started = true ∨ l.pubMap ≠ []
  | .reserveForSubscription _ _ _ started => started = true ∨ l.subMap ≠ []
  | .release remoteId localId =>
    l.pubMap.lookup remoteId ≠ none ∨ l.subMap.lookup remoteId ≠ none ∨ l.pubMap ≠ [] ∨
      (listenerFor l.recvListeners localId || listenerFor l.sendListeners localId) = false

/-- The pair of a remote and a local id, whichever is the publication. -/
def Reserved (l : Link ι τ) (remoteId localId : ι) : Prop :=
  Lists l.pubMap remoteId localId ∨ Lists l.pubMap localId remoteId

/-- What a call should do to the maps, with its result. -/
structure Kept (l : Link ι τ) (call : Call ι τ) (result : Bool) (l' : Link ι τ) : Prop where
  mirrored : ∀ p s, Lists l'.pubMap p s ↔ Lists l'.subMap s p
  pubs : NoneEmpty l'.pubMap
  subs : NoneEmpty l'.subMap
  failed : ∀ sub pub listener started, call = .reserveForPublication sub pub listener started ∨
    call = .reserveForSubscription pub sub listener started → result = false →
      l'.pubMap = l.pubMap ∧ l'.subMap = l.subMap
  released : ∀ remoteId localId, call = .release remoteId localId →
    (Reserved l remoteId localId → ∀ p s, Lists l'.pubMap p s ↔ Lists l.pubMap p s ∧
      ¬ (p = remoteId ∧ s = localId ∨ p = localId ∧ s = remoteId)) ∧
    (result = true ↔ ∀ p s, ¬ Lists l'.pubMap p s)

theorem Consistent.reserved (h : Consistent isPublication l') (hresult : result = true)
    (hcall : ∀ remoteId localId, call ≠ .release remoteId localId) : Kept l call result l' := by
  refine ⟨h.mirrored, h.pubs, h.subs, ?_, fun remoteId localId heq => absurd heq (hcall _ _)⟩
  intro _ _ _ _ _ hfalse
  rw [hresult] at hfalse
  cases hfalse

theorem Consistent.releases {remoteId localId : ι} (h : Consistent isPublication l')
    (hdrops : Reserved l remoteId localId → ∀ p s, Lists l'.pubMap p s ↔ Lists l.pubMap p s ∧
      ¬ (p = remoteId ∧ s = localId ∨ p = localId ∧ s = remoteId)) :
    Kept l (.release remoteId localId) result l' ↔ (result = true ↔ l'.released = true) := by
  rw [h.released]
  constructor
  · intro hkept
    exact (hkept.released remoteId localId rfl).2
  · intro hresult
    refine ⟨h.mirrored, h.pubs, h.subs, ?_, ?_⟩
    · rintro _ _ _ _ (heq | heq)
      · cases heq
      · cases heq
    · intro remoteId' localId' heq
      cases heq
      exact ⟨hdrops, hresult⟩

theorem Consistent.released_nil (h : Consistent isPublication l) :
    l.released = true ↔ l.pubMap = [] := by
  rw [h.released, h.pubs.eq_nil]

theorem reserve_fails (sub pub : ι)
    (hsubMap : l'.subMap = RepoIdSetMap.remove sub pub (RepoIdSetMap.insert sub pub [])) :
    ¬ Kept l call result l' := by
  intro hkept
  have hsubs := hkept.subs
  rw [hsubMap] at hsubs
  exact remove_insert_empty sub pub hsubs

theorem release_spec (h : Consistent isPublication l) (remoteId localId : ι) :
    Consistent isPublication (l.releaseReservations remoteId localId).2 ∧
      (Kept l (.release remoteId localId) (l.releaseReservations remoteId localId).1
        (l.releaseReservations remoteId localId).2 ↔ Sound l (.release remoteId localId)) := by
  cases hpub : l.pubMap.lookup remoteId with
  | some set =>
    obtain ⟨hdrops, hresult⟩ := releasePublisher_drops localId h hpub
    have hkept := h.drop hdrops
    -- The remote is a publication, so it is nowhere listed as a subscription.
    obtain ⟨other, hother⟩ := Lists.of_noneEmpty h.pubs hpub
    have hkind := (h.kinds _ _ hother).1
    have hsound : Sound l (.release remoteId localId) := Or.inl (by simp [hpub])
    refine ⟨hkept, iff_of_true ((hkept.releases ?_).mpr (by rw [hresult])) hsound⟩
    intro _ p s
    rw [hdrops.pubMap]
    refine and_congr_right fun hlists => not_congr ⟨.inl, ?_⟩
    rintro (hpair | ⟨rfl, rfl⟩)
    · exact hpair
    · exact absurd hkind (h.kinds _ _ hlists).2
  | none =>
    cases hsub : l.subMap.lookup remoteId with
    | some ids =>
      obtain ⟨hdrops, hresult⟩ := releaseSubscriber_drops localId h hpub hsub
      have hkept := h.drop hdrops
      obtain ⟨other, hother⟩ := Lists.of_noneEmpty h.subs hsub
      have hkind := (h.kinds _ _ ((h.mirrored _ _).mpr hother)).2
      have hsound : Sound l (.release remoteId localId) := Or.inr (.inl (by simp [hsub]))
      refine ⟨hkept, iff_of_true ((hkept.releases ?_).mpr (by rw [hresult])) hsound⟩
      intro _ p s
      rw [hdrops.pubMap]
      refine and_congr_right fun hlists => not_congr ⟨.inr, ?_⟩
      rintro (⟨rfl, rfl⟩ | hpair)
      · exact absurd (h.kinds _ _ hlists).1 hkind
      · exact hpair
    | none =>
      rw [releaseUnknown_eq hpub hsub]
      refine ⟨h, ?_⟩
      rw [h.releases, h.released_nil]
      · simp only [Sound, hpub, hsub, ne_eq, not_true_eq_false, false_or]
        cases (listenerFor l.recvListeners localId || listenerFor l.sendListeners localId) with
        | true => simp
        | false => simp [h.released_nil]
      · rintro (hlists | hlists)
        · exact absurd hlists (not_lists_of_lookup hpub)
        · exact absurd ((h.mirrored _ _).mp hlists) (not_lists_of_lookup hsub)

theorem perform_spec (h : Consistent isPublication l) (hconforms : Conforms isPublication call) :
    (Sound l call → Consistent isPublication (l.perform call).2) ∧
      (Kept l call (l.perform call).1 (l.perform call).2 ↔ Sound l call) := by
  cases call with
  | reserveForPublication sub pub listener started =>
    have hadded : Sound l (.reserveForPublication sub pub listener started) → _ :=
      makeReservation_adds sub pub listener
    have hconsistent := fun hsound => h.add (hadded hsound).2 hconforms.1 hconforms.2
    refine ⟨hconsistent, fun hall => ?_, fun hsound =>
      (hconsistent hsound).reserved (hadded hsound).1 (by simp)⟩
    by_contra hunsound
    have hfails : started = false ∧ l.pubMap = [] := by simpa [Sound] using hunsound
    have hsubMap := h.pubMap_nil.mp hfails.2
    refine reserve_fails sub pub ?_ hall
    simp [Link.perform, Link.makeReservation, hfails, hsubMap]
  | reserveForSubscription pub sub listener started =>
    have hadded : Sound l (.reserveForSubscription pub sub listener started) → _ :=
      makeReservationForSubscription_adds pub sub listener
    have hconsistent := fun hsound => h.add (hadded hsound).2 hconforms.1 hconforms.2
    refine ⟨hconsistent, fun hall => ?_, fun hsound =>
      (hconsistent hsound).reserved (hadded hsound).1 (by simp)⟩
    by_contra hunsound
    have hfails : started = false ∧ l.subMap = [] := by simpa [Sound] using hunsound
    refine reserve_fails sub pub ?_ hall
    simp [Link.perform, Link.makeReservationForSubscription, hfails]
  | release remoteId localId =>
    obtain ⟨hconsistent, hiff⟩ := release_spec h remoteId localId
    exact ⟨fun _ => hconsistent, hiff⟩

/-- A call that meets the condition. -/
def Performs (isPublication : ι → Prop) (l : Link ι τ) (call : Call ι τ) (l' : Link ι τ) : Prop :=
  (l.perform call).2 = l' ∧ Conforms isPublication call ∧ Sound l call

theorem run_consistent {calls : List (Call ι τ)}
    (run : Run create (Performs isPublication) calls l) : Consistent isPublication l := by
  have base : Consistent isPublication (create : Link ι τ) := by
    refine ⟨fun p s => iff_of_false ?_ ?_, nofun, nofun, fun p s hlists => ?_⟩
    · exact not_lists_of_lookup rfl
    · exact not_lists_of_lookup rfl
    · exact absurd hlists (not_lists_of_lookup rfl)
  apply run.invariant (Consistent isPublication) base
  rintro l call after h ⟨rfl, hconforms, hsound⟩
  exact (perform_spec h hconforms).1 hsound

/-- **The two maps of a link are one relation**: after calls that meet the condition, a call does
to the maps what it should if and only if it meets the condition. -/
theorem kept_iff_sound {calls : List (Call ι τ)}
    (run : Run create (Performs isPublication) calls l) (hconforms : Conforms isPublication call) :
    Kept l call (l.perform call).1 (l.perform call).2 ↔ Sound l call :=
  (perform_spec (run_consistent run) hconforms).2

end

section

def even (id : Nat) : Prop := id % 2 = 0

instance (id : Nat) : Decidable (even id) := inferInstanceAs (Decidable (_ = _))

/-- Two reservations, and the release of one. -/
theorem reserve_and_release :
    ∃ l : Link Nat Nat, Run create (Performs even)
        [.reserveForPublication 1 0 (some 7) true, .reserveForPublication 3 0 (some 7) false] l ∧
      Sound l (.release 1 0) ∧ (Kept l (.release 1 0) (l.perform (.release 1 0)).1
        (l.perform (.release 1 0)).2 ↔ Sound l (.release 1 0)) := by
  have run : Run create (Performs even)
      [.reserveForPublication 1 0 (some 7) true, .reserveForPublication 3 0 (some 7) false]
      (_ : Link Nat Nat) :=
    (Run.start.next ⟨rfl, ⟨rfl, by decide⟩, .inl rfl⟩).next
      ⟨rfl, ⟨rfl, by decide⟩, .inr (by decide)⟩
  exact ⟨_, run, .inr (.inl (by decide)), kept_iff_sound run trivial⟩

/-- A first reservation that does not start the link changes `sub_map_`. -/
theorem failed_reservation_kept : ¬ ∀ (calls : List (Call Nat Nat)) (call : Call Nat Nat),
    (∀ c ∈ call :: calls, Conforms even c) →
      Kept (calls.foldl (fun l call => (l.perform call).2) create) call
        ((calls.foldl (fun l call => (l.perform call).2) create).perform call).1
        ((calls.foldl (fun l call => (l.perform call).2) create).perform call).2 := by
  intro claim
  have hkept := claim [] (.reserveForPublication 1 0 (some 7) false) (by simp [Conforms, even])
  have hsame := (hkept.failed 1 0 (some 7) false (.inl rfl) (by decide)).2
  revert hsame
  decide

end

end OpenDDS.Guarantees.LinkReservations
