import Mathlib.Data.List.Count
import Mathlib.Data.List.Perm.Subperm
import OpenDDS.Guarantees.LinkReservations
import OpenDDS.Source.TransportClient

/-!
# Filtering on the side of the writer

A sample with a filter goes to the links that have a reader outside it, with the readers of the
link that are to be left out; the receiving side of the link takes them out of its own set. The
links are those on which the publication has a reader: to one without readers the sample is sent
as well, for nothing is filtered out there.
-/
namespace OpenDDS.Guarantees.ContentFilter

open Library Library.SetMap Source.DataLink Source.TransportClient LinkReservations

variable {ι τ : Type}

variable {id : Nat}

section

variable {links : DataLinkSet ι τ}

theorem lookup_assignFilter {id id' : Nat} {guids : Option (List ι)}
    {map : List (Nat × Option (List ι))} :
    (assignFilter id guids map).lookup id' = if id' = id then some guids else map.lookup id' := by
  unfold assignFilter
  have hnone : (map.filter fun entry => entry.1 ≠ id).lookup id = none := by
    rw [AssociationList.lookup_erase, if_pos rfl]
  rw [AssociationList.lookup_concat hnone, AssociationList.lookup_erase]
  split_ifs <;> rfl

theorem eq_of_id (hids : (links.map Prod.fst).Nodup) {l l' : Link ι τ} (hl : (id, l) ∈ links)
    (hl' : (id, l') ∈ links) : l = l' := by
  have heq := List.inj_on_of_nodup_map hids hl hl' rfl
  cases heq
  rfl

def about (address : Nat) : Action ι → Bool
  | .dataDelivered a => a == address
  | .sendStart _ => false
  | .send _ a _ => a == address
  | .sendStop _ => false

theorem send_about (e : Element ι) :
    (DataLinkSet.send e links).filter (about e.address) = DataLinkSet.send e links := by
  rw [List.filter_eq_self]
  intro action haction
  obtain ⟨entry, -, rfl⟩ := List.mem_map.mp haction
  simp [about]

theorem starts_about (address : Nat) (ids : List Nat) :
    (ids.map (Action.sendStart : Nat → Action ι)).filter (about address) = [] := by
  rw [List.filter_eq_nil_iff]
  intro action haction
  obtain ⟨id, -, rfl⟩ := List.mem_map.mp haction
  simp [about]

end

variable [DecidableEq ι]

section

variable {links : DataLinkSet ι τ} {sendLinks : List Nat}

/-- Links that are told to start are added to `send_links_`, and none is told to stop. -/
structure Starts (sendLinks : List Nat) (actions : List (Action ι)) (after : List Nat) : Prop where
  started : ∃ fresh, after = sendLinks ++ fresh ∧
    ∀ id, actions.count (.sendStart id) = fresh.count id
  none_stops : ∀ id, actions.count (.sendStop id) = 0

theorem Starts.trans {actions later : List (Action ι)} {middle after : List Nat}
    (h : Starts sendLinks actions middle) (hlater : Starts middle later after) :
    Starts sendLinks (actions ++ later) after := by
  obtain ⟨fresh, rfl, hfresh⟩ := h.started
  obtain ⟨rest, rfl, hrest⟩ := hlater.started
  refine ⟨⟨fresh ++ rest, by simp, fun id => ?_⟩, fun id => ?_⟩
  · rw [List.count_append, List.count_append, hfresh, hrest]
  · rw [List.count_append, h.none_stops, hlater.none_stops]

theorem delivered_starts (address : Nat) :
    Starts sendLinks ([.dataDelivered address] : List (Action ι)) sendLinks :=
  ⟨⟨[], by simp, fun id => by simp⟩, fun id => by simp⟩

theorem send_starts (e : Element ι) : Starts sendLinks (DataLinkSet.send e links) sendLinks := by
  refine ⟨⟨[], by simp, fun id => ?_⟩, fun id => ?_⟩
  · rw [List.count_nil, List.count_eq_zero]
    simp [DataLinkSet.send]
  · rw [List.count_eq_zero]
    simp [DataLinkSet.send]

theorem sendStart_starts : Starts sendLinks (sendStart links sendLinks : List (Action ι) × _).1
    (sendStart links sendLinks : List (Action ι) × _).2 := by
  refine ⟨⟨_, rfl, fun id => ?_⟩, fun id => ?_⟩
  · exact List.count_map_of_injective _ _ (fun a b hab => by cases hab; rfl) id
  · rw [List.count_eq_zero]
    simp [sendStart]

theorem startAndSend_starts (e : Element ι) :
    Starts sendLinks (startAndSend links e sendLinks).1 (startAndSend links e sendLinks).2 :=
  sendStart_starts.trans (send_starts e)

theorem sendElement_starts (e : Element ι) :
    Starts sendLinks (sendElement links e sendLinks).1 (sendElement links e sendLinks).2 := by
  unfold sendElement
  simp only
  generalize (if e.subIds.length > 0 then DataLinkSet.selectLinks e.subIds links else links) = pubLinks
  split
  · exact delivered_starts e.address
  · split
    · exact startAndSend_starts e
    · split
      · exact delivered_starts e.address
      · exact startAndSend_starts _

theorem sendElements_starts (links : DataLinkSet ι τ) (sendLinks : List Nat)
    (samples : List (Element ι)) :
    Starts sendLinks (sendElements links samples sendLinks).1 (sendElements links samples sendLinks).2 := by
  induction samples generalizing sendLinks with
  | nil => exact ⟨⟨[], by simp [sendElements], fun id => by simp [sendElements]⟩,
      fun id => by simp [sendElements]⟩
  | cons e samples ih => exact (sendElement_starts e).trans (ih _)

theorem send_balanced (samples : List (Element ι)) (id : Nat) :
    (send links samples).count (.sendStart id) = (send links samples).count (.sendStop id) := by
  have hstarts := sendElements_starts links [] samples
  obtain ⟨fresh, hfresh, hcount⟩ := hstarts.started
  rw [List.nil_append] at hfresh
  have hstops : (sendStop fresh : List (Action ι)).count (.sendStop id) = fresh.count id :=
    List.count_map_of_injective _ _ (fun a b hab => by cases hab; rfl) id
  have hnone : (sendStop fresh : List (Action ι)).count (.sendStart id) = 0 := by
    rw [List.count_eq_zero]
    simp [sendStop]
  change (_ ++ sendStop _).count _ = (_ ++ sendStop _).count _
  rw [hfresh, List.count_append, List.count_append, hcount, hstarts.none_stops, hstops, hnone]
  omega

end

section

variable {l : Link ι τ} {p : ι} {filterOut : List ι} {set : ReceiveListenerSet ι τ}

def entriesFor (p : ι) (filterOut : List ι) (l : Link ι τ) : List ι :=
  (targetIntersection p filterOut l).1.getD []

theorem mem_entriesFor (hset : l.pubMap.lookup p = some set) {id : ι} :
    id ∈ entriesFor p filterOut l ↔ id ∈ filterOut ∧ id ∈ set.map Prod.fst := by
  unfold entriesFor targetIntersection
  rw [hset]
  simp only
  have hfound : id ∈ filterOut.filter (fun id => ReceiveListenerSet.exist set id) ↔
      id ∈ filterOut ∧ id ∈ set.map Prod.fst := by
    rw [List.mem_filter, exist_iff]
  split_ifs with hnil
  · rw [← hfound, hnil]
    simp
  · exact hfound

/-- A link is wanted if the publication has no reader on it, or one outside the filter. -/
theorem wanted_iff (hfilter : filterOut.Nodup) (hunique : ∀ set, l.pubMap.lookup p = some set →
    (set.map Prod.fst).Nodup) (hnone : NoneEmpty l.pubMap) :
    wanted (targetIntersection p filterOut l) = true ↔
      (∃ r, Lists l.pubMap p r) → ∃ r, Lists l.pubMap p r ∧ r ∉ filterOut := by
  unfold targetIntersection
  cases hset : l.pubMap.lookup p with
  | none => simp [wanted, not_lists_of_lookup hset]
  | some set =>
    obtain ⟨r, hr⟩ := Lists.of_noneEmpty hnone hset
    have hunique := hunique set hset
    simp only [lists_iff_of_lookup hset]
    rw [lists_iff_of_lookup hset] at hr
    have hmem : ∀ id, id ∈ filterOut.filter (fun id => ReceiveListenerSet.exist set id) ↔
        id ∈ filterOut ∧ id ∈ set.map Prod.fst := fun id => by rw [List.mem_filter, exist_iff]
    have hfound := hfilter.filter (fun id => ReceiveListenerSet.exist set id)
    generalize filterOut.filter (fun id => ReceiveListenerSet.exist set id) = found at hmem hfound
    -- As many as there are readers, which means all of them.
    have hall : found.length = set.length ↔ ∀ id ∈ set.map Prod.fst, id ∈ filterOut := by
      constructor
      · intro hlength id hid
        have hperm := (List.subperm_of_subset hfound fun x hx => ((hmem x).mp hx).2).perm_of_length_le
          (Nat.le_of_eq ((List.length_map _).trans hlength.symm))
        exact ((hmem id).mp (hperm.mem_iff.mpr hid)).1
      · intro hsub
        have hperm : found.Perm (set.map Prod.fst) := by
          rw [List.perm_ext_iff_of_nodup hfound hunique]
          exact fun id => ⟨fun hid => ((hmem id).mp hid).2, fun hid => (hmem id).mpr ⟨hsub id hid, hid⟩⟩
        rw [hperm.length_eq, List.length_map]
    have hsome : (∃ id, id ∈ set.map Prod.fst ∧ id ∉ filterOut) ↔ ¬ found.length = set.length := by
      rw [hall]
      push Not
      rfl
    rw [forall_prop_of_true ⟨r, hr⟩, hsome]
    split_ifs with hnil
    · have hpos : set.length ≠ 0 := by
        intro hzero
        rw [List.length_eq_zero_iff.mp hzero] at hr
        cases hr
      simp [wanted, hnil, hpos.symm]
    · simp [wanted]

end

section

variable {links : DataLinkSet ι τ} {filterOut : List ι}

structure Applies (filterOut : List ι) (e : Element ι) (links subset : DataLinkSet ι τ)
    (e' : Element ι) : Prop where
  chosen : subset = links.filter fun entry => wanted (targetIntersection e.pubId filterOut entry.2)
  same : e'.address = e.address ∧ e'.pubId = e.pubId ∧ e'.contentFilter = e.contentFilter
  others : ∀ id, id ∉ links.map Prod.fst → e'.filterPerLink.lookup id = e.filterPerLink.lookup id
  filters : ∀ id l, (id, l) ∈ subset →
    e'.filterPerLink.lookup id = some (targetIntersection e.pubId filterOut l).1

theorem applyFilter_applies (filterOut : List ι) (e : Element ι) (hids : (links.map Prod.fst).Nodup) :
    Applies filterOut e links (applyFilter filterOut e links).1 (applyFilter filterOut e links).2 := by
  induction links generalizing e with
  | nil => exact ⟨rfl, ⟨rfl, rfl, rfl⟩, fun _ _ => rfl, nofun⟩
  | cons entry links ih =>
    obtain ⟨id, l⟩ := entry
    rw [List.map_cons, List.nodup_cons] at hids
    unfold applyFilter
    simp only
    split_ifs with hwanted
    · obtain ⟨e', he'⟩ : ∃ e', e' = { e with
          filterPerLink := assignFilter id (targetIntersection e.pubId filterOut l).1 e.filterPerLink } :=
        ⟨_, rfl⟩
      rw [← he']
      have hpub : e'.pubId = e.pubId := by rw [he']
      have hlookup : ∀ id', e'.filterPerLink.lookup id' = if id' = id then
          some (targetIntersection e.pubId filterOut l).1 else e.filterPerLink.lookup id' :=
        fun id' => by rw [he', lookup_assignFilter]
      have hrest := ih e' hids.2
      have hchosen := hrest.chosen
      rw [hpub] at hchosen
      refine ⟨?_, ?_, ?_, ?_⟩
      · rw [List.filter_cons, if_pos hwanted]
        exact congrArg _ hchosen
      · have hsame := hrest.same
        rw [he'] at hsame ⊢
        exact hsame
      · intro id' hid'
        rw [List.map_cons, List.mem_cons, not_or] at hid'
        rw [hrest.others id' hid'.2, hlookup, if_neg hid'.1]
      · intro id' l' hmem
        rcases List.mem_cons.mp hmem with heq | hmem
        · cases heq
          rw [hrest.others id hids.1, hlookup, if_pos rfl]
        · rw [hrest.filters id' l' hmem, hpub]
    · have hrest := ih e hids.2
      refine ⟨?_, hrest.same, ?_, hrest.filters⟩
      · rw [List.filter_cons, if_neg hwanted]
        exact hrest.chosen
      · intro id' hid'
        rw [List.map_cons, List.mem_cons, not_or] at hid'
        exact hrest.others id' hid'.2

def targets (p : ι) (filterOut : List ι) (links : DataLinkSet ι τ) : DataLinkSet ι τ :=
  links.filter fun entry => wanted (targetIntersection p filterOut entry.2)

/-- What a sample with a filter does: it is sent to its targets, or delivered if there is none. -/
theorem sendElement_filtered (e : Element ι) (sendLinks : List Nat) (hids : (links.map Prod.fst).Nodup)
    (hsubs : e.subIds = []) (hcontent : e.contentFilter = true) (hfilter : e.filterOut = some filterOut) :
    (sendElement links e sendLinks).1.filter (about e.address) =
      if targets e.pubId filterOut links = [] then [.dataDelivered e.address]
      else (targets e.pubId filterOut links).map fun entry =>
        .send entry.1 e.address (some (entriesFor e.pubId filterOut entry.2)) := by
  unfold sendElement
  rw [hsubs, hfilter]
  simp only [List.length_nil, gt_iff_lt, Nat.lt_irrefl, if_false]
  by_cases hlinks : links = []
  · rw [if_pos hlinks, hlinks]
    simp [targets, about]
  rw [if_neg hlinks]
  have happlies := applyFilter_applies filterOut e hids
  generalize applyFilter filterOut e links = result at happlies
  obtain ⟨subset, e'⟩ := result
  have hsubset : subset = targets e.pubId filterOut links := happlies.chosen
  cases subset with
  | nil =>
    rw [← hsubset]
    simp [about]
  | cons entry rest =>
    have hsends : DataLinkSet.send e' (entry :: rest) = (entry :: rest).map fun entry =>
        .send entry.1 e.address (some (entriesFor e.pubId filterOut entry.2)) := by
      apply List.map_congr_left
      intro entry hentry
      rw [happlies.same.2.2, hcontent, if_pos rfl, happlies.filters entry.1 entry.2 hentry,
        happlies.same.1]
      rfl
    rw [← hsubset, if_neg (List.cons_ne_nil _ _), ← hsends]
    simp only [startAndSend, sendStart]
    rw [List.filter_append, starts_about, List.nil_append, ← happlies.same.1, send_about]

end

section

variable {links : DataLinkSet ι τ} {sendLinks : List Nat}

theorem sendElement_other {address : Nat} (e : Element ι) (hother : e.address ≠ address) :
    (sendElement links e sendLinks).1.filter (about address) = [] := by
  have hdelivered : ([.dataDelivered e.address] : List (Action ι)).filter (about address) = [] := by
    simp [about, hother]
  have hsends : ∀ (subset : DataLinkSet ι τ) (e' : Element ι), e'.address = e.address →
      (startAndSend subset e' sendLinks).1.filter (about address) = [] := by
    intro subset e' hsame
    simp only [startAndSend, sendStart]
    rw [List.filter_append, starts_about, List.nil_append, List.filter_eq_nil_iff]
    intro action haction
    obtain ⟨entry, -, rfl⟩ := List.mem_map.mp haction
    simp [about, hsame, hother]
  have hfiltered : ∀ (filterOut : List ι) (e : Element ι) (links : DataLinkSet ι τ),
      (applyFilter filterOut e links).2.address = e.address := by
    intro filterOut e links
    induction links generalizing e with
    | nil => rfl
    | cons entry links ih =>
      unfold applyFilter
      simp only
      split_ifs
      · exact ih _
      · exact ih e
  unfold sendElement
  simp only
  generalize (if e.subIds.length > 0 then DataLinkSet.selectLinks e.subIds links else links) = pubLinks
  split
  · exact hdelivered
  · split
    · exact hsends pubLinks e rfl
    · rename_i filterOut _
      have hsame := hfiltered filterOut e pubLinks
      split
      · exact hdelivered
      · rename_i subset e' _ heq
        rw [heq] at hsame
        exact hsends subset e' hsame

theorem sendElements_about (links : DataLinkSet ι τ) (sendLinks : List Nat) {e : Element ι}
    {samples : List (Element ι)} (he : e ∈ samples) (hunique : (samples.map Element.address).Nodup) :
    ∃ before, (sendElements links samples sendLinks).1.filter (about e.address) =
      (sendElement links e before).1.filter (about e.address) := by
  induction samples generalizing sendLinks with
  | nil => cases he
  | cons e' samples ih =>
    rw [List.map_cons, List.nodup_cons] at hunique
    obtain rfl | he := List.mem_cons.mp he
    · refine ⟨sendLinks, ?_⟩
      -- The later elements have other addresses.
      have hlater : ∀ (rest : List (Element ι)) (sendLinks : List Nat),
          e.address ∉ rest.map Element.address →
            (sendElements links rest sendLinks).1.filter (about e.address) = [] := by
        intro rest
        induction rest with
        | nil => exact fun _ _ => rfl
        | cons e' rest ihRest =>
          intro sendLinks hnot
          rw [List.map_cons, List.mem_cons, not_or] at hnot
          change ((sendElement links e' sendLinks).1 ++ _).filter _ = []
          rw [List.filter_append, sendElement_other e' (Ne.symm hnot.1), ihRest _ hnot.2]
          rfl
      change ((sendElement links e sendLinks).1 ++ _).filter _ = _
      rw [List.filter_append, hlater samples _ hunique.1, List.append_nil]
    · have hother : e'.address ≠ e.address := fun heq =>
        hunique.1 (List.mem_map.mpr ⟨e, he, heq.symm⟩)
      obtain ⟨before, hbefore⟩ := ih (sendElement links e' sendLinks).2 he hunique.2
      refine ⟨before, ?_⟩
      change ((sendElement links e' sendLinks).1 ++ _).filter _ = _
      rw [List.filter_append, sendElement_other e' hother, List.nil_append]
      exact hbefore

theorem send_filter_about (links : DataLinkSet ι τ) {e : Element ι} {samples : List (Element ι)} (he : e ∈ samples)
    (hunique : (samples.map Element.address).Nodup) :
    ∃ before, (send links samples).filter (about e.address) =
      (sendElement links e before).1.filter (about e.address) := by
  obtain ⟨before, hbefore⟩ := sendElements_about links [] he hunique
  refine ⟨before, ?_⟩
  have hstops : (sendStop (sendElements links samples []).2 : List (Action ι)).filter
      (about e.address) = [] := by
    rw [List.filter_eq_nil_iff]
    intro action haction
    obtain ⟨id, -, rfl⟩ := List.mem_map.mp haction
    simp [about]
  change ((sendElements links samples []).1 ++ _).filter _ = _
  rw [List.filter_append, hstops, List.append_nil, hbefore]

end

section

variable {l peer : Link ι τ} {p : ι} {filterOut : List ι}

def readersOf (heard : List (Heard ι τ)) : List ι :=
  heard.filterMap fun
    | .reader id _ => some id
    | .default _ => none

/-- Both ends of a link have the same readers of `p`; the receiving end has their listeners. -/
structure Ends (p : ι) (l peer : Link ι τ) : Prop where
  readers : ∀ r, Lists peer.pubMap p r ↔ Lists l.pubMap p r
  unique : ∀ set, peer.pubMap.lookup p = some set → (set.map Prod.fst).Nodup
  listens : ∀ set, peer.pubMap.lookup p = some set → ∀ entry ∈ set, entry.2 ≠ none

theorem removeAll_eq (ids : List ι) (set : ReceiveListenerSet ι τ) :
    removeAll ids set = set.filter fun entry => entry.1 ∉ ids := by
  unfold removeAll
  induction ids generalizing set with
  | nil => simp
  | cons id ids ih =>
    rw [List.foldl_cons, ih, unbind, List.filter_filter]
    apply List.filter_congr
    simp [not_or, Bool.and_comm]

theorem readersOf_set {set : ReceiveListenerSet ι τ} (hlistens : ∀ entry ∈ set, entry.2 ≠ none) :
    readersOf (setDataReceived [] set) = set.map Prod.fst := by
  unfold readersOf setDataReceived
  rw [List.filterMap_filterMap, ← List.filterMap_eq_map]
  apply List.filterMap_congr
  intro entry hentry
  cases hlistener : entry.2 with
  | none => exact absurd hlistener (hlistens entry hentry)
  | some listener => simp

theorem heard_spec (hends : Ends p l peer) (hreader : ∃ r, Lists l.pubMap p r)
    (defaultListener : Option τ) :
    (readersOf (dataReceivedI ⟨p, true, entriesFor p filterOut l⟩ none [] defaultListener peer)).Nodup ∧
      ∀ r, r ∈ readersOf
          (dataReceivedI ⟨p, true, entriesFor p filterOut l⟩ none [] defaultListener peer) ↔
        Lists l.pubMap p r ∧ r ∉ filterOut := by
  obtain ⟨r, hr⟩ := hreader
  obtain ⟨set', hset', -⟩ := (hends.readers r).mpr hr
  obtain ⟨set, hset, -⟩ := hr
  have hlistens := hends.listens set' hset'
  have heard : readersOf
      (dataReceivedI ⟨p, true, entriesFor p filterOut l⟩ none [] defaultListener peer) =
        (set'.filter fun entry => entry.1 ∉ entriesFor p filterOut l).map Prod.fst := by
    unfold dataReceivedI
    rw [hset']
    simp only [true_and]
    split_ifs with hentries
    · rw [removeAll_eq, readersOf_set fun entry hentry => hlistens entry (List.mem_filter.mp hentry).1]
    · have hnil : entriesFor p filterOut l = [] := by
        simpa using hentries
      rw [readersOf_set hlistens, hnil]
      simp
  rw [heard]
  constructor
  · exact (hends.unique set' hset').sublist (List.filter_sublist.map _)
  · intro r'
    have hkeys : r' ∈ set.map Prod.fst ↔ r' ∈ set'.map Prod.fst := by
      rw [← lists_iff_of_lookup hset, ← lists_iff_of_lookup hset', hends.readers]
    rw [mem_members_filter (· ∉ entriesFor p filterOut l), mem_entriesFor hset, lists_iff_of_lookup hset, hkeys]
    tauto

end

variable {chosen : DataLinkSet ι τ}

section

variable {links : DataLinkSet ι τ} {peers : Nat → Link ι τ} {defaults : Nat → Option τ}
  {filterOut : List ι} {e : Element ι}

def heardOn (id : Nat) (peer : Link ι τ) (defaultListener : Option τ) (e : Element ι)
    (actions : List (Action ι)) : List ι :=
  actions.flatMap fun
    | .send link _ entries =>
      if link = id then readersOf
        (dataReceivedI ⟨e.pubId, e.contentFilter, entries.getD []⟩ none [] defaultListener peer)
      else []
    | _ => []

/-- A reader is on one link at most. -/
def Apart (p : ι) (links : DataLinkSet ι τ) : Prop :=
  links.Pairwise fun entry other => ∀ r, Lists entry.2.pubMap p r → ¬ Lists other.2.pubMap p r

/-- What the sample is to do, with the receiving ends of the links. -/
structure Filtered (links : DataLinkSet ι τ) (peers : Nat → Link ι τ) (defaults : Nat → Option τ)
    (filterOut : List ι) (e : Element ι) (actions : List (Action ι)) : Prop where
  sent : ∀ id l, (id, l) ∈ links →
    ((∃ entries, Action.send id e.address entries ∈ actions) ↔
      ∃ r, Lists l.pubMap e.pubId r ∧ r ∉ filterOut)
  heard : ∀ id l, (id, l) ∈ links → ∀ r, r ∈ heardOn id (peers id) (defaults id) e actions ↔
    Lists l.pubMap e.pubId r ∧ r ∉ filterOut
  once : Apart e.pubId links →
    (links.flatMap fun entry => heardOn entry.1 (peers entry.1) (defaults entry.1) e actions).Nodup
  delivered : (∀ id l, (id, l) ∈ links → ∀ r, Lists l.pubMap e.pubId r → r ∈ filterOut) →
    actions.count (.dataDelivered e.address) = 1

/-- What is known of the links of `p`. -/
structure Known (isPublication : ι → Prop) (p : ι) (links : DataLinkSet ι τ)
    (peers : Nat → Link ι τ) : Prop where
  ids : (links.map Prod.fst).Nodup
  consistent : ∀ id l, (id, l) ∈ links → Consistent isPublication l
  unique : ∀ id l, (id, l) ∈ links → ∀ set, l.pubMap.lookup p = some set → (set.map Prod.fst).Nodup
  ends : ∀ id l, (id, l) ∈ links → Ends p l (peers id)

theorem flatMap_of_key {β γ : Type} (f : β → List γ) {b : β} {map : List (Nat × β)}
    (hids : (map.map Prod.fst).Nodup) (hmem : (id, b) ∈ map) :
    (map.flatMap fun entry => if entry.1 = id then f entry.2 else []) = f b := by
  have hnone : ∀ map : List (Nat × β), id ∉ map.map Prod.fst →
      (map.flatMap fun entry => if entry.1 = id then f entry.2 else []) = [] := by
    intro map hid
    rw [List.flatMap_eq_nil_iff]
    intro entry hentry
    rw [if_neg fun heq => hid (List.mem_map.mpr ⟨entry, hentry, heq⟩)]
  induction map with
  | nil => cases hmem
  | cons entry map ih =>
    rw [List.map_cons, List.nodup_cons] at hids
    rw [List.flatMap_cons]
    obtain rfl | hmem := List.mem_cons.mp hmem
    · rw [if_pos rfl, hnone map hids.1, List.append_nil]
    · have hne : entry.1 ≠ id := fun heq => hids.1 (List.mem_map.mpr ⟨_, hmem, heq.symm⟩)
      rw [if_neg hne, List.nil_append, ih hids.2 hmem]

theorem mem_targets {isPublication : ι → Prop} {p : ι} (hknown : Known isPublication p links peers)
    (hfilter : filterOut.Nodup) {l : Link ι τ} (hl : (id, l) ∈ links) :
    (id, l) ∈ targets p filterOut links ↔
      ((∃ r, Lists l.pubMap p r) → ∃ r, Lists l.pubMap p r ∧ r ∉ filterOut) := by
  unfold targets
  rw [List.mem_filter, and_iff_right hl]
  exact wanted_iff hfilter (hknown.unique id l hl) (hknown.consistent id l hl).pubs

def sendTo (e : Element ι) (filterOut : List ι) (chosen : DataLinkSet ι τ) : List (Action ι) :=
  if chosen = [] then [.dataDelivered e.address]
  else chosen.map fun entry =>
    .send entry.1 e.address (some (entriesFor e.pubId filterOut entry.2))

theorem mem_sendTo : (∃ entries, Action.send id e.address entries ∈ sendTo e filterOut chosen) ↔
      id ∈ chosen.map Prod.fst := by
  unfold sendTo
  split_ifs with hnil
  · simp [hnil]
  · constructor
    · rintro ⟨entries, hmem⟩
      obtain ⟨entry, hentry, heq⟩ := List.mem_map.mp hmem
      cases heq
      exact List.mem_map.mpr ⟨entry, hentry, rfl⟩
    · intro hid
      obtain ⟨entry, hentry, rfl⟩ := List.mem_map.mp hid
      exact ⟨_, List.mem_map.mpr ⟨entry, hentry, rfl⟩⟩

theorem heardOn_sendTo {peer : Link ι τ} {defaultListener : Option τ}
    (hcontent : e.contentFilter = true) :
    heardOn id peer defaultListener e (sendTo e filterOut chosen) =
      chosen.flatMap fun entry => if entry.1 = id then readersOf
        (dataReceivedI ⟨e.pubId, true, entriesFor e.pubId filterOut entry.2⟩ none [] defaultListener
          peer) else [] := by
  unfold sendTo heardOn
  split_ifs with hnil
  · simp [hnil]
  · rw [List.flatMap_map, hcontent]
    rfl

theorem count_sendTo :
    (sendTo e filterOut chosen).count (.dataDelivered e.address) = if chosen = [] then 1 else 0 := by
  unfold sendTo
  split_ifs with hnil
  · simp
  · rw [List.count_eq_zero]
    simp

theorem mem_ids_targets {p : ι} (hids : (links.map Prod.fst).Nodup) {l : Link ι τ}
    (hl : (id, l) ∈ links) :
    id ∈ (targets p filterOut links).map Prod.fst ↔ (id, l) ∈ targets p filterOut links := by
  constructor
  · intro hid
    obtain ⟨⟨id', l'⟩, hmem, rfl⟩ := List.mem_map.mp hid
    rw [eq_of_id hids hl (List.mem_filter.mp hmem).1]
    exact hmem
  · exact fun hmem => List.mem_map.mpr ⟨_, hmem, rfl⟩

theorem filtered_of_readers {isPublication : ι → Prop}
    (hknown : Known isPublication e.pubId links peers) (hcontent : e.contentFilter = true)
    (hfilter : filterOut.Nodup)
    (hreaders : ∀ id l, (id, l) ∈ links → ∃ r, Lists l.pubMap e.pubId r) :
    Filtered links peers defaults filterOut e
      (sendTo e filterOut (targets e.pubId filterOut links)) := by
  have htarget : ∀ id l, (id, l) ∈ links → ((id, l) ∈ targets e.pubId filterOut links ↔
      ∃ r, Lists l.pubMap e.pubId r ∧ r ∉ filterOut) := by
    intro id l hl
    rw [mem_targets hknown hfilter hl, forall_prop_of_true (hreaders id l hl)]
  have hchosen : ((targets e.pubId filterOut links).map Prod.fst).Nodup :=
    hknown.ids.sublist (List.filter_sublist.map _)
  -- On a link that gets the sample the receiving end decides, on another nobody hears it.
  have hheard : ∀ id l, (id, l) ∈ links →
      (heardOn id (peers id) (defaults id) e
        (sendTo e filterOut (targets e.pubId filterOut links))).Nodup ∧
      ∀ r, r ∈ heardOn id (peers id) (defaults id) e
          (sendTo e filterOut (targets e.pubId filterOut links)) ↔
        Lists l.pubMap e.pubId r ∧ r ∉ filterOut := by
    intro id l hl
    rw [heardOn_sendTo hcontent]
    by_cases hmem : (id, l) ∈ targets e.pubId filterOut links
    · rw [flatMap_of_key (fun l' => readersOf (dataReceivedI
        ⟨e.pubId, true, entriesFor e.pubId filterOut l'⟩ none [] (defaults id) (peers id))) hchosen hmem]
      exact heard_spec (hknown.ends id l hl) (hreaders id l hl) (defaults id)
    · have hnil : ((targets e.pubId filterOut links).flatMap fun entry =>
          if entry.1 = id then readersOf (dataReceivedI
            ⟨e.pubId, true, entriesFor e.pubId filterOut entry.2⟩ none [] (defaults id) (peers id))
          else []) = [] := by
        rw [List.flatMap_eq_nil_iff]
        intro entry hentry
        have hne : entry.1 ≠ id := fun heq =>
          hmem ((mem_ids_targets hknown.ids hl).mp (List.mem_map.mpr ⟨entry, hentry, heq⟩))
        rw [if_neg hne]
      rw [hnil]
      refine ⟨List.nodup_nil, fun r => iff_of_false (List.not_mem_nil) fun hr => ?_⟩
      exact hmem ((htarget id l hl).mpr ⟨r, hr⟩)
  refine ⟨?_, fun id l hl => (hheard id l hl).2, ?_, ?_⟩
  · intro id l hl
    rw [mem_sendTo, mem_ids_targets hknown.ids hl, htarget id l hl]
  · intro hapart
    rw [List.nodup_flatMap]
    refine ⟨fun entry hentry => (hheard entry.1 entry.2 hentry).1, ?_⟩
    apply hapart.imp_of_mem
    intro entry other hentry hother hdisjoint r hr hr'
    exact hdisjoint r (((hheard entry.1 entry.2 hentry).2 r).mp hr).1
      (((hheard other.1 other.2 hother).2 r).mp hr').1
  · intro hnone
    have hnil : targets e.pubId filterOut links = [] := by
      rw [List.eq_nil_iff_forall_not_mem]
      rintro ⟨id, l⟩ hmem
      have hl := (List.mem_filter.mp hmem).1
      obtain ⟨r, hr, hout⟩ := (htarget id l hl).mp hmem
      exact hout (hnone id l hl r hr)
    rw [count_sendTo, if_pos hnil]

/-- A sample with a filter reaches the readers outside it, on the links that have such a reader
and nowhere else, if and only if the publication has a reader on each of its links. -/
theorem filtered_iff_readers {isPublication : ι → Prop} {samples : List (Element ι)}
    (hknown : Known isPublication e.pubId links peers)
    (hsamples : (samples.map Element.address).Nodup) (he : e ∈ samples) (hsubs : e.subIds = [])
    (hcontent : e.contentFilter = true) (hout : e.filterOut = some filterOut)
    (hfilter : filterOut.Nodup) :
    (Filtered links peers defaults filterOut e ((send links samples).filter (about e.address)) ∧
      ∀ id, (send links samples).count (.sendStart id) = (send links samples).count (.sendStop id)) ↔
    ∀ id l, (id, l) ∈ links → ∃ r, Lists l.pubMap e.pubId r := by
  obtain ⟨before, hbefore⟩ := send_filter_about links he hsamples
  have hactions : (send links samples).filter (about e.address) =
      sendTo e filterOut (targets e.pubId filterOut links) := by
    rw [hbefore, sendElement_filtered e before hknown.ids hsubs hcontent hout]
    rfl
  rw [hactions]
  constructor
  · rintro ⟨hfiltered, -⟩ id l hl
    by_contra hno
    -- Nothing is filtered out on this link, so that it gets the sample.
    have htarget : (id, l) ∈ targets e.pubId filterOut links :=
      (mem_targets hknown hfilter hl).mpr fun hreader => absurd hreader hno
    have hsent : ∃ entries, Action.send id e.address entries ∈
        sendTo e filterOut (targets e.pubId filterOut links) :=
      mem_sendTo.mpr ((mem_ids_targets hknown.ids hl).mpr htarget)
    obtain ⟨r, hr, -⟩ := (hfiltered.sent id l hl).mp hsent
    exact hno ⟨r, hr⟩
  · intro hreaders
    exact ⟨filtered_of_readers hknown hcontent hfilter hreaders, send_balanced samples⟩

end

section

/-- A link on which publication `0` has the readers `1` and `3`. -/
def twoReaders : Link Nat Nat :=
  ⟨[(0, [(1, none), (3, none)])], [(1, [(0, 1)]), (3, [(0, 3)])], [(0, some 7)], []⟩

def twoReadersPeer : Link Nat Nat :=
  ⟨[(0, [(1, some 8), (3, some 9)])], [(1, [(0, 1)]), (3, [(0, 3)])], [], [(1, some 8), (3, some 9)]⟩

def noReaders : Link Nat Nat := ⟨[], [], [], []⟩

/-- A sample of publication `0` that is filtered out of reader `1`. -/
def filteredSample : Element Nat := ⟨20, 0, [], true, some [1], []⟩

theorem twoReaders_consistent : Consistent even twoReaders := by
  have run : Run create (Performs even)
      [.reserveForPublication 1 0 (some 7) true, .reserveForPublication 3 0 (some 7) false]
      twoReaders :=
    (Run.start.next ⟨rfl, ⟨rfl, by decide⟩, .inl rfl⟩).next
      ⟨rfl, ⟨rfl, by decide⟩, .inr (by decide)⟩
  exact run_consistent run

theorem twoReaders_ends : Ends 0 twoReaders twoReadersPeer := by
  refine ⟨fun r => ?_, ?_, ?_⟩
  · have hset : twoReaders.pubMap.lookup 0 = some [(1, none), (3, none)] := rfl
    have hpeer : twoReadersPeer.pubMap.lookup 0 = some [(1, some 8), (3, some 9)] := rfl
    rw [lists_iff_of_lookup hset, lists_iff_of_lookup hpeer]
    rfl
  · rintro set ⟨⟩
    decide
  · rintro set ⟨⟩
    decide

/-- Reader `3` gets the sample, reader `1` does not. -/
theorem one_reader_filtered :
    (Filtered [(5, twoReaders)] (fun _ => twoReadersPeer) (fun _ => none) [1] filteredSample
        ((send [(5, twoReaders)] [filteredSample]).filter (about 20)) ∧
      ∀ id, (send [(5, twoReaders)] [filteredSample]).count (.sendStart id) =
        (send [(5, twoReaders)] [filteredSample]).count (.sendStop id)) ∧
      heardOn 5 twoReadersPeer none filteredSample (send [(5, twoReaders)] [filteredSample]) = [3] := by
  have hknown : Known even 0 [(5, twoReaders)] fun _ => twoReadersPeer := by
    refine ⟨by decide, ?_, ?_, ?_⟩
    · intro id l hl
      cases List.mem_singleton.mp hl
      exact twoReaders_consistent
    · intro id l hl
      cases List.mem_singleton.mp hl
      rintro set ⟨⟩
      decide
    · intro id l hl
      cases List.mem_singleton.mp hl
      exact twoReaders_ends
  refine ⟨(filtered_iff_readers (e := filteredSample) hknown (by decide) List.mem_cons_self rfl rfl rfl
    (by decide)).mpr ?_, by decide⟩
  intro id l hl
  cases List.mem_singleton.mp hl
  exact ⟨1, _, rfl, by decide⟩

/-- A link on which the publication has no reader gets the sample. -/
theorem sent_to_no_reader : ¬ ∀ (links : DataLinkSet Nat Nat) (peers : Nat → Link Nat Nat)
    (e : Element Nat) (filterOut : List Nat), Known even e.pubId links peers → e.subIds = [] →
      e.contentFilter = true → e.filterOut = some filterOut → filterOut.Nodup →
      Filtered links peers (fun _ => none) filterOut e ((send links [e]).filter (about e.address)) := by
  intro claim
  have hno : ∀ p r : Nat, ¬ Lists noReaders.pubMap p r := fun p r => not_lists_of_lookup rfl
  have hno' : ∀ s p : Nat, ¬ Lists noReaders.subMap s p := fun s p => not_lists_of_lookup rfl
  have hknown : Known even 0 [(5, noReaders)] fun _ => noReaders := by
    refine ⟨by decide, ?_, ?_, ?_⟩
    · intro id l hl
      cases List.mem_singleton.mp hl
      exact ⟨fun p s => iff_of_false (hno p s) (hno' s p), nofun, nofun,
        fun p s h => absurd h (hno p s)⟩
    · intro id l hl
      cases List.mem_singleton.mp hl
      nofun
    · intro id l hl
      cases List.mem_singleton.mp hl
      exact ⟨fun r => Iff.rfl, nofun, nofun⟩
  have hfiltered := claim [(5, noReaders)] (fun _ => noReaders) filteredSample [1] hknown rfl rfl rfl
    (by decide)
  obtain ⟨r, hr, -⟩ := (hfiltered.sent 5 noReaders List.mem_cons_self).mp ⟨some [], by decide⟩
  exact hno 0 r hr

end

end OpenDDS.Guarantees.ContentFilter
