import OpenDDS.Library.Run
import OpenDDS.Source.OwnershipEntries

/-!
# The ownership table

The table of an ownership manager stays in order through every sequence of calls: the owner
of an instance is at least as strong as its candidates, each writer is recorded once, with
the strength it was last selected with. The instance states that are listed with an entry
know its owner as long as each of them joins when the owner is broadcast: a state that joins
when the owner stays is listed and keeps GUID_UNKNOWN.
-/
namespace OpenDDS.Guarantees.OwnershipBookkeeping
open Library Library.AssociationList Source Source.OwnershipManager Source.OwnershipManager.Manager

inductive Call where
  | selectOwner (handle pubId : Nat) (strength : Int) (address : Nat)
  | removeWriter (pubId : Nat)
  | removeWriterOf (handle pubId : Nat)
  | removeWriters (handle : Nat)
  | removeInstance (address : Nat)
  deriving DecidableEq, Repr

def perform (sorting : Sorting) (m : Manager) : Call → Manager
  | .selectOwner handle pubId strength address =>
    (m.selectOwner sorting handle pubId strength address).2
  | .removeWriter pubId => m.removeWriterFromAll sorting pubId
  | .removeWriterOf handle pubId => (m.removeWriter sorting handle pubId).2
  | .removeWriters handle => m.removeWriters handle
  | .removeInstance address => m.removeInstance address

def InDomain : Call → Prop
  | .selectOwner _ pubId _ _ => pubId ≠ guidUnknown
  | _ => True

/-- The strength of the last `select_owner` for a writer of an instance. -/
def latest (calls : List Call) (handle pubId : Nat) : Option Int :=
  calls.foldl (fun last call =>
    match call with
    | .selectOwner handle' pubId' strength _ =>
      if handle' = handle ∧ pubId' = pubId then some strength else last
    | _ => last) none

/-- An empty table, with the instance states as they are constructed. -/
def start (handles : Nat → Nat) : Manager := ⟨[], fun address => .create (handles address) true⟩

def Performs (sorting : Sorting) (m : Manager) (call : Call) (m' : Manager) : Prop :=
  InDomain call ∧ m' = perform sorting m call

structure Bookkeeping (last : Nat → Nat → Option Int) (m : Manager) : Prop where
  valid : ∀ handle infos, m.find handle = some infos → Valid infos
  strength : ∀ handle infos, m.find handle = some infos → ∀ w, Recorded infos w →
    last handle w.pubId = some w.ownershipStrength

def Synchronized (m : Manager) : Prop :=
  ∀ handle infos, m.find handle = some infos → ∀ address ∈ infos.instanceStates,
    (m.states address).owner = infos.owner.pubId

/-- The condition: a state that is not registered yet joins an entry when the owner is
broadcast. -/
def JoinsAnnounced (m : Manager) : Call → Prop
  | .selectOwner handle pubId strength address => (m.states address).registered = true ∨
      ∀ infos, m.find handle = some infos → Announces infos pubId strength
  | _ => True

def PerformsAnnounced (sorting : Sorting) (m : Manager) (call : Call) (m' : Manager) : Prop :=
  Performs sorting m call m' ∧ JoinsAnnounced m call

variable {sorting : Sorting} {m m' : Manager} {handle handle' pubId address : Nat} {strength : Int}
  {infos infos' : OwnershipWriterInfos} {election : Election}
  {last last' : Nat → Nat → Option Int} {entered : OwnershipManager.WriterInfo → Prop} {calls : List Call} {call : Call}

section

variable (h : Bookkeeping last m)
include h

theorem Bookkeeping.store (others : ∀ handle', handle' ≠ handle → last' handle' = last handle')
    (valid : Valid election.infos)
    (strength : ∀ w, Recorded election.infos w → last' handle w.pubId = some w.ownershipStrength) :
    Bookkeeping last' (m.store handle election) := by
  constructor
  · intro handle' infos' hfind
    rw [find_store] at hfind
    split at hfind
    · cases hfind
      exact valid
    · exact h.valid _ _ hfind
  · intro handle' infos' hfind w hw
    rw [find_store] at hfind
    split at hfind
    · rename_i heq
      cases hfind
      rw [heq]
      exact strength w hw
    · rename_i hne
      rw [others handle' hne]
      exact h.strength _ _ hfind w hw

theorem Bookkeeping.removeWriter : Bookkeeping last (m.removeWriter sorting handle pubId).2 := by
  unfold Manager.removeWriter
  split
  · rename_i infos hfind
    have helects : Elects m.states infos pubId (fun _ => False)
        (removeWriterFrom sorting m.states infos pubId) :=
      removeWriterFrom_elects (h.valid _ _ hfind)
    apply h.store (fun _ _ => rfl) helects.valid
    intro w hw
    rcases (helects.replaces w).mp hw with hfalse | ⟨hrecorded, -⟩
    · exact absurd hfalse not_false
    · exact h.strength _ _ hfind w hrecorded
  · exact h

theorem Bookkeeping.removeWriterFromAll :
    Bookkeeping last (m.removeWriterFromAll sorting pubId) := by
  unfold Manager.removeWriterFromAll
  generalize m.infos.map Prod.fst = handles
  induction handles generalizing m with
  | nil => exact h
  | cons handle rest ih => exact ih h.removeWriter

theorem Bookkeeping.removeWriters : Bookkeeping last (m.removeWriters handle) := by
  unfold Manager.removeWriters
  split
  · have hfind : ∀ handle' infos', (m.erase handle).lookup handle' = some infos' →
        m.find handle' = some infos' := by
      intro handle' infos' hfind
      rw [Manager.erase, lookup_erase] at hfind
      split at hfind
      · cases hfind
      · exact hfind
    constructor
    · intro handle' infos' hmem
      exact h.valid _ _ (hfind _ _ hmem)
    · intro handle' infos' hmem
      exact h.strength _ _ (hfind _ _ hmem)
  · exact h

theorem Bookkeeping.removeInstance : Bookkeeping last (m.removeInstance address) := by
  unfold Manager.removeInstance
  split
  · rename_i infos hfind
    have hvalid := h.valid _ _ hfind
    apply h.store (fun _ _ => rfl)
    · exact ⟨hvalid.toListed, hvalid.vacant, hvalid.apart, hvalid.descending, hvalid.leading⟩
    · intro w hw
      exact h.strength _ infos hfind w hw
  · exact h

theorem Bookkeeping.selectOwner (known : pubId ≠ guidUnknown)
    (now : last' handle pubId = some strength)
    (others : ∀ handle' pubId', ¬ (handle' = handle ∧ pubId' = pubId) →
      last' handle' pubId' = last handle' pubId') :
    Bookkeeping last' (m.selectOwner sorting handle pubId strength address).2 := by
  have hothers : ∀ handle', handle' ≠ handle → last' handle' = last handle' := by
    intro handle' hne
    funext pubId'
    apply others
    rintro ⟨heq, -⟩
    exact hne heq
  unfold Manager.selectOwner
  split
  · rename_i infos hfind
    have helects : Elects (m.register infos address).2 (m.register infos address).1 pubId
        (· = ⟨pubId, strength⟩)
        (selectFrom sorting (m.register infos address).2 (m.register infos address).1 pubId strength) :=
      selectFrom_elects (register_valid (h.valid _ _ hfind)) known
    apply h.store hothers helects.valid
    intro w hw
    rcases (helects.replaces w).mp hw with rfl | ⟨hrecorded, hne⟩
    · exact now
    · rw [others _ _ (fun heq => hne heq.2)]
      exact h.strength _ _ hfind w ((register_recorded w).mp hrecorded)
  · apply h.store hothers
    · exact register_valid (valid_single known _)
    · intro w hw
      obtain ⟨-, rfl | hmem⟩ := (register_recorded w).mp hw
      · exact now
      · exact absurd hmem List.not_mem_nil

end

theorem latest_select (calls : List Call) (address : Nat) :
    latest (calls ++ [.selectOwner handle pubId strength address]) = fun handle' pubId' =>
      if handle = handle' ∧ pubId = pubId' then some strength else latest calls handle' pubId' := by
  funext handle' pubId'
  exact List.foldl_concat ..

theorem latest_other (calls : List Call) (other : ∀ h p s a, call ≠ .selectOwner h p s a) :
    latest (calls ++ [call]) = latest calls := by
  funext handle' pubId'
  unfold latest
  rw [List.foldl_concat]
  split
  · exact absurd rfl (other _ _ _ _)
  · rfl

theorem Bookkeeping.next (h : Bookkeeping (latest calls) m) (domain : InDomain call) :
    Bookkeeping (latest (calls ++ [call])) (perform sorting m call) := by
  cases call with
  | selectOwner handle pubId strength address =>
    rw [latest_select]
    apply h.selectOwner domain
    · exact if_pos ⟨rfl, rfl⟩
    · intro handle' pubId' hne
      apply if_neg
      rintro ⟨rfl, rfl⟩
      exact hne ⟨rfl, rfl⟩
  | removeWriter pubId =>
    rw [latest_other calls (by simp)]
    exact h.removeWriterFromAll
  | removeWriterOf handle pubId =>
    rw [latest_other calls (by simp)]
    exact h.removeWriter
  | removeWriters handle =>
    rw [latest_other calls (by simp)]
    exact h.removeWriters
  | removeInstance address =>
    rw [latest_other calls (by simp)]
    exact h.removeInstance

/-- Each state is listed with one instance at most, and only when it is registered; before
that it knows no owner. -/
structure Filed (m : Manager) : Prop where
  registered : ∀ handle infos, m.find handle = some infos → ∀ address ∈ infos.instanceStates,
    (m.states address).registered = true
  unique : ∀ handle handle' infos infos' address, m.find handle = some infos →
    m.find handle' = some infos' → address ∈ infos.instanceStates →
    address ∈ infos'.instanceStates → handle = handle'
  vacant : ∀ address, (m.states address).registered = false → (m.states address).owner = guidUnknown

structure Synced (m : Manager) : Prop extends Filed m where
  synchronized : Synchronized m

section

variable (h : Synced m)
include h

theorem Synced.store
    (registered : ∀ a, (m.states a).registered = true → (election.states a).registered = true)
    (vacant : ∀ a, (election.states a).registered = false → (election.states a).owner = guidUnknown)
    (listed : ∀ a ∈ election.infos.instanceStates, (election.states a).registered = true ∧
      (election.states a).owner = election.infos.owner.pubId)
    (others : ∀ handle' infos', handle' ≠ handle → m.find handle' = some infos' →
      ∀ a ∈ infos'.instanceStates, a ∉ election.infos.instanceStates ∧
        (election.states a).owner = (m.states a).owner) : Synced (m.store handle election) := by
  constructor
  · constructor
    · intro handle' infos' hfind a ha
      rw [find_store] at hfind
      split at hfind
      · cases hfind
        exact (listed a ha).1
      · exact registered a (h.registered _ _ hfind a ha)
    · intro handle₁ handle₂ infos₁ infos₂ a hfind₁ hfind₂ ha₁ ha₂
      rw [find_store] at hfind₁ hfind₂
      split at hfind₁ <;> split at hfind₂
      · rename_i heq₁ heq₂
        exact heq₁.trans heq₂.symm
      · rename_i hne
        cases hfind₁
        exact absurd ha₁ (others _ _ hne hfind₂ a ha₂).1
      · rename_i hne _
        cases hfind₂
        exact absurd ha₂ (others _ _ hne hfind₁ a ha₁).1
      · exact h.unique _ _ _ _ a hfind₁ hfind₂ ha₁ ha₂
    · exact vacant
  · intro handle' infos' hfind a ha
    rw [find_store] at hfind
    split at hfind
    · cases hfind
      exact (listed a ha).2
    · rename_i hne
      change (election.states a).owner = infos'.owner.pubId
      rw [(others _ _ hne hfind a ha).2]
      exact h.synchronized _ _ hfind a ha

theorem Synced.announce {base : Nat → InstanceState} {result : Bool}
    (registered : ∀ a, (m.states a).registered = true → (base a).registered = true)
    (owner : ∀ a, (base a).owner = (m.states a).owner)
    (listed : ∀ a ∈ infos'.instanceStates, (base a).registered = true ∧
      ((m.states a).registered = false ∨
        ∃ infos, m.find handle = some infos ∧ a ∈ infos.instanceStates)) :
    Synced (m.store handle ⟨infos', broadcastNewOwner base infos' infos'.owner.pubId, result⟩) := by
  have hreg : ∀ a, (broadcastNewOwner base infos' infos'.owner.pubId a).registered =
      (base a).registered := by
    intro a
    unfold broadcastNewOwner
    split <;> rfl
  have hout : ∀ a, a ∉ infos'.instanceStates →
      (broadcastNewOwner base infos' infos'.owner.pubId a).owner = (m.states a).owner := by
    intro a ha
    unfold broadcastNewOwner
    rw [if_neg ha, owner]
  have hin : ∀ a ∈ infos'.instanceStates,
      (broadcastNewOwner base infos' infos'.owner.pubId a).owner = infos'.owner.pubId := by
    intro a ha
    unfold broadcastNewOwner
    rw [if_pos ha]
    rfl
  apply h.store
  · intro a ha
    rw [hreg]
    exact registered a ha
  · intro a ha
    rw [hreg] at ha
    have hnot : a ∉ infos'.instanceStates := by
      intro hmem
      rw [(listed a hmem).1] at ha
      cases ha
    rw [hout a hnot]
    apply h.vacant
    cases hbefore : (m.states a).registered with
    | false => rfl
    | true => exact absurd (registered a hbefore) (by simp [ha])
  · intro a ha
    exact ⟨(hreg a).trans (listed a ha).1, hin a ha⟩
  · intro handle₁ infos₁ hne hfind a ha
    have hnot : a ∉ infos'.instanceStates := by
      intro hmem
      rcases (listed a hmem).2 with hfalse | ⟨infos, hmine, hlisted⟩
      · rw [h.registered _ _ hfind a ha] at hfalse
        cases hfalse
      · exact hne (h.unique _ _ _ _ a hfind hmine ha hlisted)
    exact ⟨hnot, hout a hnot⟩

theorem Synced.elect (hfind : m.find handle = some infos)
    (elects : Elects m.states infos pubId entered election) : Synced (m.store handle election) := by
  have hsame := elects.instanceStates
  rcases elects.broadcast with hcast | ⟨hstates, howner⟩
  · have hform : election = ⟨election.infos,
        broadcastNewOwner m.states election.infos election.infos.owner.pubId, election.result⟩ := by
      rw [broadcastNewOwner_congr _ hsame, ← hcast]
    rw [hform]
    apply h.announce (fun _ ha => ha) (fun _ => rfl)
    intro a ha
    rw [hsame] at ha
    exact ⟨h.registered _ _ hfind a ha, .inr ⟨infos, hfind, ha⟩⟩
  · apply h.store
    · intro a ha
      rw [hstates]
      exact ha
    · rw [hstates]
      exact h.vacant
    · intro a ha
      rw [hsame] at ha
      rw [hstates, howner]
      exact ⟨h.registered _ _ hfind a ha, h.synchronized _ _ hfind a ha⟩
    · intro handle₁ infos₁ hne hfind₁ a ha
      rw [hsame, hstates]
      refine ⟨?_, rfl⟩
      intro hmem
      exact hne (h.unique _ _ _ _ a hfind₁ hfind ha hmem)

theorem Synced.removeWriter (book : Bookkeeping last m) :
    Synced (m.removeWriter sorting handle pubId).2 := by
  unfold Manager.removeWriter
  split
  · rename_i infos hfind
    exact h.elect hfind (removeWriterFrom_elects (book.valid _ _ hfind))
  · exact h

theorem Synced.removeWriterFromAll (book : Bookkeeping last m) :
    Synced (m.removeWriterFromAll sorting pubId) := by
  unfold Manager.removeWriterFromAll
  generalize m.infos.map Prod.fst = handles
  induction handles generalizing m with
  | nil => exact h
  | cons handle rest ih => exact ih (h.removeWriter book) book.removeWriter

theorem Synced.removeInstance : Synced (m.removeInstance address) := by
  unfold Manager.removeInstance
  split
  · rename_i infos hfind
    have hsub : ∀ a ∈ infos.instanceStates.erase address, a ∈ infos.instanceStates := by
      intro a ha
      exact List.mem_of_mem_erase ha
    apply h.store (fun _ ha => ha) h.vacant
    · intro a ha
      exact ⟨h.registered _ _ hfind a (hsub a ha), h.synchronized _ _ hfind a (hsub a ha)⟩
    · intro handle₁ infos₁ hne hfind₁ a ha
      refine ⟨?_, rfl⟩
      intro hmem
      exact hne (h.unique _ _ _ _ a hfind₁ hfind ha (hsub a hmem))
  · exact h

theorem Synced.removeWriters : Synced (m.removeWriters handle) := by
  unfold Manager.removeWriters
  split
  · rename_i infos hinfos
    have hfind : ∀ handle' infos', (m.erase handle).lookup handle' = some infos' →
        handle' ≠ handle ∧ m.find handle' = some infos' := by
      intro handle' infos' hlookup
      rw [Manager.erase, lookup_erase] at hlookup
      split at hlookup
      · cases hlookup
      · rename_i hne
        exact ⟨hne, hlookup⟩
    have hout : ∀ handle' infos', handle' ≠ handle → m.find handle' = some infos' →
        ∀ a ∈ infos'.instanceStates, a ∉ infos.instanceStates := by
      intro handle' infos' hne hmem a ha hlisted
      exact hne (h.unique _ _ _ _ a hmem hinfos ha hlisted)
    constructor
    · constructor
      · intro handle' infos' hlookup a ha
        obtain ⟨hne, hmem⟩ := hfind _ _ hlookup
        dsimp only
        rw [if_neg (hout _ _ hne hmem a ha)]
        exact h.registered _ _ hmem a ha
      · intro handle₁ handle₂ infos₁ infos₂ a h₁ h₂ ha₁ ha₂
        exact h.unique _ _ _ _ a (hfind _ _ h₁).2 (hfind _ _ h₂).2 ha₁ ha₂
      · intro a ha
        dsimp only at ha ⊢
        split
        · rfl
        · rename_i hnot
          rw [if_neg hnot] at ha
          exact h.vacant a ha
    · intro handle' infos' hlookup a ha
      obtain ⟨hne, hmem⟩ := hfind _ _ hlookup
      dsimp only
      rw [if_neg (hout _ _ hne hmem a ha)]
      exact h.synchronized _ _ hmem a ha
  · exact h

theorem Synced.join (listed : ∀ a ∈ infos.instanceStates, ∃ infos₀, m.find handle = some infos₀ ∧
      a ∈ infos₀.instanceStates)
    (same : election.infos.instanceStates = (m.register infos address).1.instanceStates)
    (cast : election.states = broadcastNewOwner (m.register infos address).2
      (m.register infos address).1 election.infos.owner.pubId) :
    Synced (m.store handle election) := by
  have hform : election = ⟨election.infos, broadcastNewOwner (m.register infos address).2
      election.infos election.infos.owner.pubId, election.result⟩ := by
    rw [broadcastNewOwner_congr _ same, ← cast]
  obtain ⟨hregistered, howner, hjoined, hnow⟩ := register_effects (m := m) infos address
  rw [hform]
  apply h.announce hregistered howner
  intro a ha
  rw [same] at ha
  rcases hjoined a ha with hmem | ⟨rfl, hnew⟩
  · obtain ⟨infos₀, hfind, hmem₀⟩ := listed a hmem
    exact ⟨hregistered a (h.registered _ _ hfind a hmem₀), .inr ⟨infos₀, hfind, hmem₀⟩⟩
  · exact ⟨hnow, .inl hnew⟩

theorem Synced.selectOwner (book : Bookkeeping last m) (known : pubId ≠ guidUnknown)
    (joins : JoinsAnnounced m (.selectOwner handle pubId strength address)) :
    Synced (m.selectOwner sorting handle pubId strength address).2 := by
  unfold Manager.selectOwner
  split
  · rename_i infos hfind
    rcases joins with hregistered | hannounced
    · rw [register_registered hregistered]
      exact h.elect hfind (selectFrom_elects (book.valid _ _ hfind) known)
    · have hannounces : Announces (m.register infos address).1 pubId strength := by
        unfold Announces
        rw [register_owner]
        exact hannounced _ hfind
      apply h.join
      · intro a ha
        exact ⟨infos, hfind, ha⟩
      · exact (selectFrom_elects (register_valid (book.valid _ _ hfind)) known).instanceStates
      · exact selectFrom_announces hannounces
  · have hnone : ∀ a ∈ (⟨⟨pubId, strength⟩, [], []⟩ : OwnershipWriterInfos).instanceStates,
        ∃ infos₀, m.find handle = some infos₀ ∧ a ∈ infos₀.instanceStates := by
      intro a ha
      exact absurd ha List.not_mem_nil
    apply h.join hnone
    · rfl
    · rw [register_owner]

theorem Synced.joinsAnnounced (book : Bookkeeping last m) (known : pubId ≠ guidUnknown)
    (after : Synchronized (m.selectOwner sorting handle pubId strength address).2) :
    JoinsAnnounced m (.selectOwner handle pubId strength address) := by
  by_cases hregistered : (m.states address).registered = true
  · exact .inl hregistered
  refine .inr ?_
  intro infos hfind
  by_contra hsilent
  have hnew : (m.states address).registered = false := Bool.eq_false_iff.mpr hregistered
  obtain ⟨-, howner, -, -⟩ := register_effects (m := m) infos address
  have hquiet : ¬ Announces (m.register infos address).1 pubId strength := by
    unfold Announces
    rw [register_owner]
    exact hsilent
  obtain ⟨hstates, hkept⟩ := selectFrom_silent sorting (m.register infos address).2 hquiet
  have hjoined : address ∈ (selectFrom sorting (m.register infos address).2
      (m.register infos address).1 pubId strength).infos.instanceStates := by
    rw [(selectFrom_elects (register_valid (book.valid _ _ hfind)) known).instanceStates]
    simp [Manager.register, hnew]
  unfold Manager.selectOwner at after
  rw [hfind] at after
  have hsync := after handle _ find_store_self address hjoined
  change ((selectFrom sorting (m.register infos address).2 (m.register infos address).1
    pubId strength).states address).owner = _ at hsync
  rw [hstates, howner, h.vacant _ hnew, hkept, register_owner] at hsync
  exact hsilent (.inl hsync.symm)

theorem Synced.next (book : Bookkeeping last m) (domain : InDomain call)
    (joins : JoinsAnnounced m call) : Synced (perform sorting m call) := by
  cases call with
  | selectOwner handle pubId strength address => exact h.selectOwner book domain joins
  | removeWriter pubId => exact h.removeWriterFromAll book
  | removeWriterOf handle pubId => exact h.removeWriter book
  | removeWriters handle => exact h.removeWriters
  | removeInstance address => exact h.removeInstance

end

theorem Bookkeeping.start (handles : Nat → Nat) : Bookkeeping (latest []) (start handles) where
  valid _ _ hfind := nomatch hfind
  strength _ _ hfind := nomatch hfind

theorem Synced.start (handles : Nat → Nat) : Synced (start handles) where
  registered _ _ hfind := nomatch hfind
  unique _ _ _ _ _ hfind := nomatch hfind
  vacant _ _ := rfl
  synchronized _ _ hfind := nomatch hfind

/-- After every sequence of calls the table is in order, with the latest strengths. As long
as each state that joins an entry joins it when the owner is broadcast, the states know the
owners; the first one that does not breaks this. -/
theorem ownership_bookkeeping (sorting : Sorting) (handles : Nat → Nat) :
    (∀ calls m, Run (start handles) (Performs sorting) calls m → Bookkeeping (latest calls) m) ∧
      ∀ calls call m m', Run (start handles) (PerformsAnnounced sorting) calls m →
        Synchronized m ∧ (Performs sorting m call m' → (Synchronized m' ↔ JoinsAnnounced m call)) := by
  constructor
  · intro calls m run
    apply run.history (fun calls m => Bookkeeping (latest calls) m) (Bookkeeping.start handles)
    rintro calls m call m' h ⟨domain, rfl⟩
    exact h.next domain
  · intro calls call m m' run
    have hinv : Bookkeeping (latest calls) m ∧ Synced m := by
      apply run.history (fun calls m => Bookkeeping (latest calls) m ∧ Synced m)
        ⟨Bookkeeping.start handles, Synced.start handles⟩
      rintro calls m call m' ⟨book, h⟩ ⟨⟨domain, rfl⟩, joins⟩
      exact ⟨book.next domain, h.next book domain joins⟩
    obtain ⟨book, h⟩ := hinv
    refine ⟨h.synchronized, ?_⟩
    rintro ⟨domain, rfl⟩
    constructor
    · intro hafter
      cases call with
      | selectOwner handle pubId strength address => exact h.joinsAnnounced book domain hafter
      | _ => trivial
    · intro joins
      exact (h.next book domain joins).synchronized

section

instance (call : Call) : Decidable (InDomain call) :=
  match call with
  | .selectOwner _ pubId _ _ => inferInstanceAs (Decidable (pubId ≠ guidUnknown))
  | .removeWriter _ => .isTrue trivial
  | .removeWriterOf _ _ => .isTrue trivial
  | .removeWriters _ => .isTrue trivial
  | .removeInstance _ => .isTrue trivial

/-- The writer 7 writes the instance 1 to a reader, and then to a second one. -/
def joinedLater : List Call := [.selectOwner 1 7 5 0, .selectOwner 1 7 5 1]

theorem state_joins_without_owner : ∃ m,
    Run (start fun _ => 1) (Performs .stable) joinedLater m ∧ ¬ Synchronized m := by
  refine ⟨_, .next (.next .start ⟨by decide, rfl⟩) ⟨by decide, rfl⟩, ?_⟩
  intro hsync
  have howner := hsync 1 ⟨⟨7, 5⟩, [], [0, 1]⟩ rfl 1 (by decide)
  revert howner
  decide

/-- A stronger writer takes the instance over, and then unregisters it. -/
theorem ownership_bookkeeping_takeover :
    ∃ m, Run (start fun _ => 1) (PerformsAnnounced .stable)
        [.selectOwner 1 7 5 0, .selectOwner 1 8 6 0] m ∧
      Bookkeeping (latest [.selectOwner 1 7 5 0, .selectOwner 1 8 6 0]) m ∧
      Synchronized (perform .stable m (.removeWriterOf 1 8)) := by
  have hfirst : PerformsAnnounced .stable (start fun _ => 1) (.selectOwner 1 7 5 0)
      (perform .stable (start fun _ => 1) (.selectOwner 1 7 5 0)) := by
    refine ⟨⟨by decide, rfl⟩, .inr ?_⟩
    intro infos hfind
    cases hfind
  have hsecond : PerformsAnnounced .stable
      (perform .stable (start fun _ => 1) (.selectOwner 1 7 5 0)) (.selectOwner 1 8 6 0)
      (perform .stable (perform .stable (start fun _ => 1) (.selectOwner 1 7 5 0))
        (.selectOwner 1 8 6 0)) := ⟨⟨by decide, rfl⟩, .inl (by decide)⟩
  refine ⟨_, .next (.next .start hfirst) hsecond, ?_, ?_⟩
  · exact (ownership_bookkeeping .stable fun _ => 1).1 _ _ (.next (.next .start hfirst.1) hsecond.1)
  · apply (((ownership_bookkeeping .stable fun _ => 1).2 _ (.removeWriterOf 1 8) _ _
      (.next (.next .start hfirst) hsecond)).2 ⟨trivial, rfl⟩).mpr
    trivial

end

end OpenDDS.Guarantees.OwnershipBookkeeping
