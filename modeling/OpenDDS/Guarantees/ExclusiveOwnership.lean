import OpenDDS.Library.Run
import OpenDDS.Source.OwnershipFilter

/-!
# Exclusive ownership

A reader with exclusive ownership passes the samples of the strongest writer of an instance
and filters those of weaker ones, where the strength of a writer is the one at its latest
sample. A writer that unregisters the instance leaves the ownership table and keeps the mark
that it has been evaluated. When it writes again while another writer owns the instance, it
is compared with the owner and not evaluated: the strongest writer is filtered.
-/
namespace OpenDDS.Guarantees.ExclusiveOwnership
open Library Source Source.OwnershipManager Source.OwnershipManager.Manager Source.OwnershipFilter
open Function (update update_eq_self update_of_ne update_self)

inductive Event where
  | sampleData (pubId : Nat)
  | unregisterInstance (pubId : Nat)
  | updateOwnershipStrength (pubId : Nat) (strength : Int)
  | writerBecameDead (pubId : Nat)
  | writerRemoved (pubId : Nat)
  | addAssociation (pubId : Nat) (strength : Int)
  deriving DecidableEq, Repr

def perform (sorting : Sorting) (r : OwnershipFilter.Reader) : Event → OwnershipFilter.Reader
  | .sampleData pubId => (r.sampleData sorting pubId).2
  | .unregisterInstance pubId => r.unregisterInstance sorting pubId
  | .updateOwnershipStrength pubId strength => r.updateOwnershipStrength pubId strength
  | .writerBecameDead pubId => r.writerBecameDead sorting pubId
  | .writerRemoved pubId => r.writerRemoved sorting pubId
  | .addAssociation pubId strength => r.addAssociation pubId strength

/-- The writers that have sent a sample of the instance since they last unregistered it, died
or were removed, each with its strength at its latest sample. -/
abbrev Active := Nat → Option Int

def activeAfter (r : OwnershipFilter.Reader) (active : Active) : Event → Active
  | .sampleData pubId => update active pubId
      ((r.writers pubId).map WriterOwnership.ownershipStrength)
  | .unregisterInstance pubId => update active pubId none
  | .writerBecameDead pubId => update active pubId none
  | .writerRemoved pubId => update active pubId none
  | .updateOwnershipStrength _ _ => active
  | .addAssociation _ _ => active

structure Observed where
  reader : OwnershipFilter.Reader
  active : Active

def Observed.start (handle address : Nat) : Observed where
  reader :=
    { handle := handle
      address := address
      made := false
      writers := fun _ => none
      manager := ⟨[], fun _ => .create handle true⟩ }
  active := fun _ => none

/-- Every event but the first association comes from an associated writer. -/
def InDomain (r : OwnershipFilter.Reader) : Event → Prop
  | .addAssociation pubId _ => pubId ≠ guidUnknown
  | .sampleData pubId => (r.writers pubId).isSome
  | .unregisterInstance pubId => (r.writers pubId).isSome
  | .updateOwnershipStrength pubId _ => (r.writers pubId).isSome
  | .writerBecameDead pubId => (r.writers pubId).isSome
  | .writerRemoved pubId => (r.writers pubId).isSome

def Observed.next (sorting : Sorting) (o : Observed) (e : Event) : Observed :=
  ⟨perform sorting o.reader e, activeAfter o.reader o.active e⟩

def Happens (sorting : Sorting) (o : Observed) (e : Event) (o' : Observed) : Prop :=
  InDomain o.reader e ∧ o' = o.next sorting e

/-- The check of a sample: passed if the writer is the strongest one, filtered if another
one is stronger. -/
def Decided (sorting : Sorting) (o : Observed) (pubId : Nat) : Prop :=
  ∀ w, o.reader.writers pubId = some w →
    ((∀ v t, v ≠ pubId → o.active v = some t → t < w.ownershipStrength) →
      (o.reader.sampleData sorting pubId).1 = false) ∧
    ((∃ v t, v ≠ pubId ∧ o.active v = some t ∧ w.ownershipStrength < t) →
      (o.reader.sampleData sorting pubId).1 = true)

/-- The condition: a sample of an evaluated writer is checked against an owner only if the
writer has not unregistered the instance since its latest sample. -/
def Standing (o : Observed) : Event → Prop
  | .sampleData pubId => ∀ w, o.reader.writers pubId = some w →
      o.reader.owner ≠ guidUnknown → (w.isOwnerEvaluated o.reader.handle).1 = true →
      (o.active pubId).isSome
  | _ => True

def HappensStanding (sorting : Sorting) (o : Observed) (e : Event) (o' : Observed) : Prop :=
  Happens sorting o e o' ∧ Standing o e

variable {sorting : Sorting} {o : Observed} {e : Event} {r : OwnershipFilter.Reader} {pubId : Nat}
  {infos infos' : OwnershipWriterInfos} {active : Active} {w : WriterOwnership} {strength : Int}

/-- The entry of the instance records the active writers, and the instance state knows the
owner. -/
structure Entered (r : OwnershipFilter.Reader) (active : Active) (infos : OwnershipWriterInfos) :
    Prop where
  table : r.manager.infos = [(r.handle, infos)]
  listed : infos.instanceStates = [r.address]
  registered : (r.manager.states r.address).registered = true
  owner : r.owner = infos.owner.pubId
  valid : Valid infos
  records : ∀ v t, Recorded infos ⟨v, t⟩ ↔ active v = some t

/-- Before the first sample. -/
structure Vacant (r : OwnershipFilter.Reader) (active : Active) : Prop where
  table : r.manager.infos = []
  registered : (r.manager.states r.address).registered = false
  owner : r.owner = guidUnknown
  nobody : ∀ v, active v = none

theorem Entered.find (h : Entered r active infos) : r.manager.find r.handle = some infos := by
  unfold Manager.find
  rw [h.table]
  simp

theorem Vacant.find (h : Vacant r active) : r.manager.find r.handle = none := by
  unfold Manager.find
  rw [h.table]
  rfl

theorem Entered.store (h : Entered r active infos) (election : Election) :
    (r.manager.store r.handle election).infos = [(r.handle, election.infos)] := by
  unfold Manager.store
  rw [h.find, h.table]
  simp

theorem Entered.elect {entered : OwnershipManager.WriterInfo → Prop} {election : Election}
    {r' : OwnershipFilter.Reader} {active' : Active} (h : Entered r active infos)
    (elects : Elects r.manager.states infos pubId entered election)
    (handle : r'.handle = r.handle) (address : r'.address = r.address)
    (manager : r'.manager = r.manager.store r.handle election)
    (records : ∀ v t, active' v = some t ↔ entered ⟨v, t⟩ ∨ active v = some t ∧ v ≠ pubId) :
    Entered r' active' election.infos := by
  have hcast : (election.states r.address).registered = true ∧
      (election.states r.address).owner = election.infos.owner.pubId := by
    rcases elects.broadcast with hcast | ⟨hstates, howner⟩
    · rw [hcast, broadcastNewOwner, h.listed, if_pos (List.mem_singleton.mpr rfl)]
      exact ⟨h.registered, rfl⟩
    · rw [hstates, howner]
      exact ⟨h.registered, h.owner⟩
  constructor
  · rw [manager, handle]
    exact h.store election
  · rw [elects.instanceStates, address]
    exact h.listed
  · rw [manager, address]
    exact hcast.1
  · unfold OwnershipFilter.Reader.owner
    rw [manager, address]
    exact hcast.2
  · exact elects.valid
  · intro v t
    rw [elects.replaces, records, h.records]

theorem Vacant.select (h : Vacant r active) (sorting : Sorting) (strength : Int)
    (known : pubId ≠ guidUnknown) :
    ∃ infos', ((r.manager.selectOwner sorting r.handle pubId strength r.address).1 = true ∧
        infos'.owner.pubId = pubId) ∧
      ∀ r' : OwnershipFilter.Reader, r'.handle = r.handle → r'.address = r.address →
        r'.manager = (r.manager.selectOwner sorting r.handle pubId strength r.address).2 →
        Entered r' (update active pubId (some strength)) infos' := by
  have hregister : r.manager.register ⟨⟨pubId, strength⟩, [], []⟩ r.address =
      (⟨⟨pubId, strength⟩, [], [r.address]⟩, update r.manager.states r.address
        { r.manager.states r.address with registered := true }) := by
    simp [Manager.register, h.registered]
  have hselect : r.manager.selectOwner sorting r.handle pubId strength r.address =
      (true, r.manager.store r.handle ⟨⟨⟨pubId, strength⟩, [], [r.address]⟩,
        broadcastNewOwner (update r.manager.states r.address
          { r.manager.states r.address with registered := true })
          ⟨⟨pubId, strength⟩, [], [r.address]⟩ pubId, true⟩) := by
    unfold Manager.selectOwner
    rw [h.find]
    rw [hregister]
  refine ⟨⟨⟨pubId, strength⟩, [], [r.address]⟩, ⟨by rw [hselect], rfl⟩, ?_⟩
  intro r' hhandle haddress hmanager
  rw [hselect] at hmanager
  constructor
  · rw [hmanager, hhandle]
    simp [Manager.store, h.find, h.table]
  · rw [haddress]
  · rw [hmanager, haddress]
    simp [Manager.store, broadcastNewOwner, InstanceState.setOwner]
  · unfold OwnershipFilter.Reader.owner
    rw [hmanager, haddress]
    simp [Manager.store, broadcastNewOwner, InstanceState.setOwner]
  · exact valid_single known _
  · intro v t
    by_cases hv : v = pubId
    · subst hv
      simp [Recorded, known, eq_comm]
    · simp [Recorded, hv, h.nobody]

/-- What the check of a sample leaves: the writer is active with its strength of now, and
the sample is filtered unless the writer owns the instance. -/
structure Checked (r : OwnershipFilter.Reader) (active : Active) (pubId : Nat) (strength : Int)
    (result : Bool × OwnershipFilter.Reader) (infos : OwnershipWriterInfos) : Prop where
  entered : Entered result.2 (update active pubId (some strength)) infos
  filtered : result.1 = decide (infos.owner.pubId ≠ pubId)
  handle : result.2.handle = r.handle
  made : result.2.made = r.made
  writers : ∃ w, result.2.writers = update r.writers pubId (some w) ∧
    w.ownershipStrength = strength

section

variable (table : Vacant r active ∨ ∃ infos, Entered r active infos) (known : pubId ≠ guidUnknown)
include table known

theorem evaluate_checked : ∃ infos',
      Checked r active pubId w.ownershipStrength (r.evaluate sorting pubId w) infos' := by
  have hwriters : ∃ w', (r.evaluate sorting pubId w).2.writers =
      update r.writers pubId (some w') ∧ w'.ownershipStrength = w.ownershipStrength :=
    ⟨_, rfl, w.setOwnerEvaluated_strength _ _⟩
  rcases table with hvacant | ⟨infos, hentered⟩
  · obtain ⟨infos', ⟨hresult, howner⟩, hafter⟩ :=
      hvacant.select sorting w.ownershipStrength known
    refine ⟨infos', hafter _ rfl rfl rfl, ?_, rfl, rfl, hwriters⟩
    unfold OwnershipFilter.Reader.evaluate
    dsimp only
    rw [hresult]
    simp [howner]
  · have hselect : r.manager.selectOwner sorting r.handle pubId w.ownershipStrength r.address =
        ((selectFrom sorting r.manager.states infos pubId w.ownershipStrength).result,
         r.manager.store r.handle
          (selectFrom sorting r.manager.states infos pubId w.ownershipStrength)) := by
      unfold Manager.selectOwner
      rw [hentered.find]
      dsimp only
      rw [register_registered hentered.registered]
    have helects : Elects r.manager.states infos pubId (· = ⟨pubId, w.ownershipStrength⟩)
        (selectFrom sorting r.manager.states infos pubId w.ownershipStrength) :=
      selectFrom_elects hentered.valid known
    refine ⟨(selectFrom sorting r.manager.states infos pubId w.ownershipStrength).infos, ?_, ?_,
      rfl, rfl, hwriters⟩
    · apply hentered.elect helects
      · rfl
      · rfl
      · unfold OwnershipFilter.Reader.evaluate
        rw [hselect]
        rfl
      · intro v t
        by_cases hv : v = pubId
        · subst hv
          simp [eq_comm]
        · simp [hv]
    · unfold OwnershipFilter.Reader.evaluate
      rw [hselect]
      have hresult := selectFrom_result sorting r.manager.states infos pubId w.ownershipStrength
      cases hres : (selectFrom sorting r.manager.states infos pubId w.ownershipStrength).result with
      | true => simp [hresult.mp hres]
      | false =>
        have hne := mt hresult.mpr (by simp [hres])
        simp [hne]

theorem filterInstance_checked (hwriter : r.writers pubId = some w)
    (evaluated : r.owner ≠ guidUnknown → (w.isOwnerEvaluated r.handle).1 = true →
      active pubId = some w.ownershipStrength) : ∃ infos',
      Checked r active pubId w.ownershipStrength (r.filterInstance sorting pubId) infos' := by
  unfold OwnershipFilter.Reader.filterInstance
  rw [hwriter]
  dsimp only
  by_cases howner : r.owner = guidUnknown
  · rw [if_pos howner]
    exact evaluate_checked table known
  · rw [if_neg howner]
    by_cases hflag : (w.isOwnerEvaluated r.handle).1 = true
    · rw [if_pos hflag]
      have hactive := evaluated howner hflag
      rcases table with hvacant | ⟨infos, hentered⟩
      · exact absurd hvacant.owner howner
      · have hsame : update active pubId (some w.ownershipStrength) = active := by
          rw [← hactive, update_eq_self]
        refine ⟨infos, ?_, ?_, rfl, rfl, _, rfl, w.isOwnerEvaluated_strength _⟩
        · rw [hsame]
          exact ⟨hentered.table, hentered.listed, hentered.registered, hentered.owner,
            hentered.valid, hentered.records⟩
        · rw [hentered.owner]
    · rw [if_neg hflag]
      have hstrength := w.isOwnerEvaluated_strength r.handle
      rw [← hstrength]
      exact evaluate_checked table known

end

theorem Checked.decided {result : Bool × OwnershipFilter.Reader}
    (h : Checked r active pubId strength result infos) :
    ((∀ v t, v ≠ pubId → active v = some t → t < strength) → result.1 = false) ∧
      ((∃ v t, v ≠ pubId ∧ active v = some t ∧ strength < t) → result.1 = true) := by
  have hrecorded : Recorded infos ⟨pubId, strength⟩ := by
    rw [h.entered.records]
    exact update_self ..
  constructor
  · intro hstrongest
    have howner : infos.owner.pubId = pubId := by
      apply h.entered.valid.owner_of_strongest hrecorded
      intro v hv hne
      apply hstrongest v.pubId v.ownershipStrength hne
      rw [← (h.entered.records v.pubId v.ownershipStrength).mp hv]
      exact (update_of_ne hne _ _).symm
    rw [h.filtered]
    simp [howner]
  · rintro ⟨v, t, hne, hactive, hlt⟩
    have hother : Recorded infos ⟨v, t⟩ := by
      rw [h.entered.records, update_of_ne hne]
      exact hactive
    have howner : infos.owner.pubId ≠ pubId :=
      h.entered.valid.owner_ne_of_weaker hrecorded hother hlt
    rw [h.filtered]
    simpa using howner

/-- The table, the flags and the strengths agree with the active writers. -/
structure Agrees (o : Observed) : Prop where
  known : ∀ pubId w, o.reader.writers pubId = some w → pubId ≠ guidUnknown
  table : Vacant o.reader o.active ∨ o.reader.made = true ∧ ∃ infos, Entered o.reader o.active infos
  evaluated : ∀ pubId w t, o.reader.writers pubId = some w →
    w.ownerEvaluated o.reader.handle = some true → o.active pubId = some t →
    w.ownershipStrength = t

theorem Agrees.start (handle address : Nat) : Agrees (.start handle address) where
  known _ _ hwriter := nomatch hwriter
  table := Or.inl ⟨rfl, rfl, rfl, fun _ => rfl⟩
  evaluated _ _ _ hwriter := nomatch hwriter

theorem Agrees.checked (h : Agrees o) (sorting : Sorting) (hwriter : o.reader.writers pubId = some w)
    (standing : Standing o (.sampleData pubId)) : ∃ infos',
      Checked { o.reader with made := true } o.active pubId w.ownershipStrength
        (o.reader.sampleData sorting pubId) infos' := by
  apply filterInstance_checked
  · rcases h.table with hvacant | ⟨-, infos, hentered⟩
    · exact .inl ⟨hvacant.table, hvacant.registered, hvacant.owner, hvacant.nobody⟩
    · exact .inr ⟨infos, hentered.table, hentered.listed, hentered.registered, hentered.owner,
        hentered.valid, hentered.records⟩
  · exact h.known _ _ hwriter
  · exact hwriter
  · intro howner hflag
    obtain ⟨t, ht⟩ := Option.isSome_iff_exists.mp (standing w hwriter howner hflag)
    rw [ht, h.evaluated pubId w t hwriter ((w.isOwnerEvaluated_iff _).mp hflag) ht]

theorem Agrees.sampleData (h : Agrees o) (hwriter : o.reader.writers pubId = some w)
    (standing : Standing o (.sampleData pubId)) : Agrees (o.next sorting (.sampleData pubId)) := by
  obtain ⟨infos', hchecked⟩ := h.checked sorting hwriter standing
  obtain ⟨w', hwriters, hstrength⟩ := hchecked.writers
  have hactive : activeAfter o.reader o.active (.sampleData pubId) =
      update o.active pubId (some w.ownershipStrength) := by
    change update o.active pubId
      ((o.reader.writers pubId).map WriterOwnership.ownershipStrength) = _
    rw [hwriter]
    rfl
  constructor
  · intro v w₁ hv
    change (o.reader.sampleData sorting pubId).2.writers v = some w₁ at hv
    rw [hwriters] at hv
    by_cases heq : v = pubId
    · subst heq
      exact h.known _ _ hwriter
    · rw [update_of_ne heq] at hv
      exact h.known _ _ hv
  · refine .inr ⟨hchecked.made, infos', ?_⟩
    unfold Observed.next
    rw [hactive]
    exact hchecked.entered
  · intro v w₁ t hv hflag ht
    change (o.reader.sampleData sorting pubId).2.writers v = some w₁ at hv
    change w₁.ownerEvaluated (o.reader.sampleData sorting pubId).2.handle = some true at hflag
    change activeAfter o.reader o.active (.sampleData pubId) v = some t at ht
    rw [hwriters] at hv
    rw [hactive] at ht
    rw [hchecked.handle] at hflag
    by_cases heq : v = pubId
    · subst heq
      rw [update_self] at hv ht
      cases hv
      cases ht
      exact hstrength
    · rw [update_of_ne heq] at hv ht
      exact h.evaluated v w₁ t hv hflag ht

theorem Entered.remove (h : Entered r active infos) (sorting : Sorting) (pubId : Nat) : ∃ infos',
    ∀ r' : OwnershipFilter.Reader, r'.handle = r.handle → r'.address = r.address →
      r'.manager = (r.manager.removeWriter sorting r.handle pubId).2 →
      Entered r' (update active pubId none) infos' := by
  have hremove : (r.manager.removeWriter sorting r.handle pubId).2 =
      r.manager.store r.handle (removeWriterFrom sorting r.manager.states infos pubId) := by
    unfold Manager.removeWriter
    rw [h.find]
  refine ⟨(removeWriterFrom sorting r.manager.states infos pubId).infos, ?_⟩
  intro r' hhandle haddress hmanager
  rw [hremove] at hmanager
  apply h.elect (removeWriterFrom_elects h.valid) hhandle haddress hmanager
  intro v t
  by_cases hv : v = pubId
  · subst hv
    simp
  · simp [hv]

theorem Entered.removeWriterFromAll (h : Entered r active infos) :
    r.manager.removeWriterFromAll sorting pubId =
      (r.manager.removeWriter sorting r.handle pubId).2 := by
  unfold Manager.removeWriterFromAll
  rw [h.table]
  rfl

theorem Vacant.removeWriterFromAll (h : Vacant r active) :
    r.manager.removeWriterFromAll sorting pubId = r.manager := by
  unfold Manager.removeWriterFromAll
  rw [h.table]
  rfl

theorem Vacant.removeWriter (h : Vacant r active) :
    (r.manager.removeWriter sorting r.handle pubId).2 = r.manager := by
  unfold Manager.removeWriter
  rw [h.find]

theorem Agrees.withdraw {o' : Observed} (h : Agrees o) (sorting : Sorting) (pubId : Nat)
    (handle : o'.reader.handle = o.reader.handle) (address : o'.reader.address = o.reader.address)
    (made : o'.reader.made = o.reader.made)
    (manager : o'.reader.manager = (o.reader.manager.removeWriter sorting o.reader.handle pubId).2)
    (active : o'.active = update o.active pubId none)
    (writers : ∀ v w, v ≠ pubId → o'.reader.writers v = some w → o.reader.writers v = some w)
    (mine : ∀ w, o'.reader.writers pubId = some w → (o.reader.writers pubId).isSome) :
    Agrees o' := by
  constructor
  · intro v w hv
    by_cases heq : v = pubId
    · rw [heq] at hv ⊢
      obtain ⟨w₀, hw₀⟩ := Option.isSome_iff_exists.mp (mine w hv)
      exact h.known _ _ hw₀
    · exact h.known _ _ (writers v w heq hv)
  · rcases h.table with hvacant | ⟨hmade, infos, hentered⟩
    · have hmanager := manager.trans hvacant.removeWriter
      refine .inl ⟨?_, ?_, ?_, ?_⟩
      · rw [hmanager]
        exact hvacant.table
      · rw [hmanager, address]
        exact hvacant.registered
      · unfold OwnershipFilter.Reader.owner
        rw [hmanager, address]
        exact hvacant.owner
      · intro v
        rw [active]
        by_cases heq : v = pubId
        · rw [heq, update_self]
        · rw [update_of_ne heq]
          exact hvacant.nobody v
    · obtain ⟨infos', hafter⟩ := hentered.remove sorting pubId
      refine .inr ⟨made.trans hmade, infos', ?_⟩
      rw [active]
      exact hafter _ handle address manager
  · intro v w t hv hflag ht
    rw [active] at ht
    by_cases heq : v = pubId
    · rw [heq, update_self] at ht
      cases ht
    · rw [update_of_ne heq] at ht
      rw [handle] at hflag
      exact h.evaluated v w t (writers v w heq hv) hflag ht

theorem Agrees.removeWriterFromAll (h : Agrees o) :
    o.reader.manager.removeWriterFromAll sorting pubId =
      (o.reader.manager.removeWriter sorting o.reader.handle pubId).2 := by
  rcases h.table with hvacant | ⟨-, infos, hentered⟩
  · rw [hvacant.removeWriterFromAll, hvacant.removeWriter]
  · exact hentered.removeWriterFromAll

theorem Agrees.reset (h : Agrees o) (known : pubId ≠ guidUnknown)
    (cleared : ∀ handle, w.ownerEvaluated handle = none) :
    Agrees ⟨o.reader.setWriter pubId w, o.active⟩ where
  known v w₁ hv := by
    by_cases heq : v = pubId
    · rw [heq]
      exact known
    · exact h.known v w₁ ((update_of_ne heq _ _).symm.trans hv)
  table := by
    rcases h.table with hvacant | ⟨hmade, infos, hentered⟩
    · exact .inl ⟨hvacant.table, hvacant.registered, hvacant.owner, hvacant.nobody⟩
    · exact .inr ⟨hmade, infos, hentered.table, hentered.listed, hentered.registered,
        hentered.owner, hentered.valid, hentered.records⟩
  evaluated v w₁ t hv hflag ht := by
    by_cases heq : v = pubId
    · subst heq
      change update o.reader.writers v (some w) v = some w₁ at hv
      rw [update_self] at hv
      rw [← Option.some.inj hv] at hflag
      cases (cleared _).symm.trans hflag
    · exact h.evaluated v w₁ t ((update_of_ne heq _ _).symm.trans hv) hflag ht

theorem Agrees.next (h : Agrees o) (domain : InDomain o.reader e) (standing : Standing o e) :
    Agrees (o.next sorting e) := by
  cases e with
  | sampleData pubId =>
    obtain ⟨w, hwriter⟩ := Option.isSome_iff_exists.mp domain
    exact h.sampleData hwriter standing
  | unregisterInstance pubId =>
    by_cases hmade : o.reader.made = true
    · have hnext : o.reader.unregisterInstance sorting pubId = { o.reader with
          manager := (o.reader.manager.removeWriter sorting o.reader.handle pubId).2 } := if_pos hmade
      unfold Observed.next perform
      dsimp only
      rw [hnext]
      apply h.withdraw sorting pubId
      · rfl
      · rfl
      · rfl
      · rfl
      · rfl
      · intro v w _ hv
        exact hv
      · intro _ _
        exact domain
    · -- without an instance there is nothing to remove
      have hnext : o.reader.unregisterInstance sorting pubId = o.reader := if_neg hmade
      obtain hvacant := h.table.resolve_right (fun hentered => hmade hentered.1)
      unfold Observed.next perform
      dsimp only
      rw [hnext]
      apply h.withdraw sorting pubId
      · rfl
      · rfl
      · rfl
      · exact hvacant.removeWriter.symm
      · rfl
      · intro v w _ hv
        exact hv
      · intro _ _
        exact domain
  | updateOwnershipStrength pubId strength =>
    obtain ⟨w, hwriter⟩ := Option.isSome_iff_exists.mp domain
    unfold Observed.next perform OwnershipFilter.Reader.updateOwnershipStrength activeAfter
    dsimp only
    rw [hwriter]
    dsimp only
    split
    · exact h.reset (h.known _ _ hwriter) (fun _ => rfl)
    · exact h
  | writerBecameDead pubId =>
    obtain ⟨w, hwriter⟩ := Option.isSome_iff_exists.mp domain
    unfold Observed.next perform OwnershipFilter.Reader.writerBecameDead
    dsimp only
    rw [hwriter]
    apply h.withdraw sorting pubId
    · rfl
    · rfl
    · rfl
    · exact h.removeWriterFromAll
    · rfl
    · intro v w hne hv
      exact (update_of_ne hne _ _).symm.trans hv
    · intro _ _
      exact domain
  | writerRemoved pubId =>
    obtain ⟨w, hwriter⟩ := Option.isSome_iff_exists.mp domain
    unfold Observed.next perform OwnershipFilter.Reader.writerRemoved
    dsimp only
    rw [hwriter]
    apply h.withdraw sorting pubId
    · rfl
    · rfl
    · rfl
    · exact h.removeWriterFromAll
    · rfl
    · intro v w hne hv
      exact (update_of_ne hne _ _).symm.trans hv
    · intro _ _
      exact domain
  | addAssociation pubId strength =>
    unfold Observed.next perform OwnershipFilter.Reader.addAssociation activeAfter
    dsimp only
    split
    · exact h.reset domain (fun _ => rfl)
    · exact h

/-- In every run in which no evaluated writer is compared with the owner after it has
unregistered the instance, each sample is decided by the strengths of the active writers. -/
theorem exclusive_ownership (sorting : Sorting) (handle address : Nat) (es : List Event)
    (o : Observed) (run : Run (.start handle address) (HappensStanding sorting) es o)
    (pubId : Nat) (standing : Standing o (.sampleData pubId)) : Decided sorting o pubId := by
  have hagrees : Agrees o := by
    apply run.invariant Agrees (Agrees.start handle address)
    rintro o e o' h ⟨⟨domain, rfl⟩, hstanding⟩
    exact h.next domain hstanding
  intro w hwriter
  obtain ⟨infos', hchecked⟩ := hagrees.checked sorting hwriter standing
  exact hchecked.decided

section

def observeAll (sorting : Sorting) (es : List Event) : Observed :=
  es.foldl (Observed.next sorting) (.start 1 0)

instance (r : OwnershipFilter.Reader) (e : Event) : Decidable (InDomain r e) :=
  match e with
  | .addAssociation pubId _ => inferInstanceAs (Decidable (pubId ≠ guidUnknown))
  | .sampleData pubId => inferInstanceAs (Decidable ((r.writers pubId).isSome = true))
  | .unregisterInstance pubId => inferInstanceAs (Decidable ((r.writers pubId).isSome = true))
  | .updateOwnershipStrength pubId _ => inferInstanceAs (Decidable ((r.writers pubId).isSome = true))
  | .writerBecameDead pubId => inferInstanceAs (Decidable ((r.writers pubId).isSome = true))
  | .writerRemoved pubId => inferInstanceAs (Decidable ((r.writers pubId).isSome = true))

/-- Two writers write, and the stronger one unregisters the instance. -/
def unregistered : List Event :=
  [.addAssociation 7 10, .addAssociation 8 5, .sampleData 7, .sampleData 8, .unregisterInstance 7]

theorem strongest_writer_filtered :
    ∃ o, Run (.start 1 0) (Happens .stable) unregistered o ∧ ¬ Decided .stable o 7 := by
  refine ⟨observeAll .stable unregistered, ?_, ?_⟩
  · exact .next (.next (.next (.next (.next .start ⟨by decide, rfl⟩) ⟨by decide, rfl⟩)
      ⟨by decide, rfl⟩) ⟨by decide, rfl⟩) ⟨by decide, rfl⟩
  · intro h
    obtain ⟨w, hw⟩ : ∃ w, (observeAll .stable unregistered).reader.writers 7 = some w := ⟨_, rfl⟩
    have hstrength : w.ownershipStrength = 10 := by
      cases hw
      rfl
    have hpass : ((observeAll .stable unregistered).reader.sampleData .stable 7).1 = false := by
      apply (h w hw).1
      intro v t hv ht
      have hactive : (observeAll .stable unregistered).active v =
          if v = 8 then some 5 else none := by
        by_cases h8 : v = 8
        · subst h8
          rfl
        · have hnone : (observeAll .stable unregistered).active = update (update
              (update (fun _ => none) 7 (some 10)) 8 (some 5)) 7 none := rfl
          rw [hnone, if_neg h8, update_of_ne hv, update_of_ne h8,
            update_of_ne hv]
      rw [hstrength]
      rw [hactive] at ht
      split at ht
      · cases ht
        decide
      · cases ht
    revert hpass
    decide

/-- The stronger writer dies and writes again. -/
theorem exclusive_ownership_revived :
    ∃ o, Run (.start 1 0) (HappensStanding .stable)
        [.addAssociation 7 10, .addAssociation 8 5, .sampleData 7, .writerBecameDead 7] o ∧
      Standing o (.sampleData 7) ∧ Decided .stable o 7 := by
  have hfirst : Standing (observeAll .stable [.addAssociation 7 10, .addAssociation 8 5])
      (.sampleData 7) := by
    intro w hw howner
    exact absurd rfl howner
  have hrun : Run (.start 1 0) (HappensStanding .stable)
      [.addAssociation 7 10, .addAssociation 8 5, .sampleData 7, .writerBecameDead 7]
      (observeAll .stable
        [.addAssociation 7 10, .addAssociation 8 5, .sampleData 7, .writerBecameDead 7]) :=
    .next (.next (.next (.next .start ⟨⟨by decide, rfl⟩, trivial⟩) ⟨⟨by decide, rfl⟩, trivial⟩)
      ⟨⟨by decide, rfl⟩, hfirst⟩) ⟨⟨by decide, rfl⟩, trivial⟩
  have hstanding : Standing (observeAll .stable
      [.addAssociation 7 10, .addAssociation 8 5, .sampleData 7, .writerBecameDead 7])
      (.sampleData 7) := by
    intro w hw howner
    exact absurd rfl howner
  exact ⟨_, hrun, hstanding, exclusive_ownership .stable 1 0 _ _ hrun 7 hstanding⟩

end

end OpenDDS.Guarantees.ExclusiveOwnership
