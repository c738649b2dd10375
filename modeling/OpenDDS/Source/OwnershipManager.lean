import OpenDDS.Library.AssociationList
import OpenDDS.Source.InstanceState

/-!
`OpenDDS::DCPS::OwnershipManager` (dds/DCPS/OwnershipManager.{h,cpp}), without the instance
maps of the types. The table is an association list from instance handles; no operation
depends on the order of its entries. An `InstanceState` is known by its address, which is
not used again. `std::sort` does not say in which order it leaves writers of equal strength:
the sorting is a parameter, any one that does what is documented.
-/
namespace OpenDDS.Source.OwnershipManager
open Library.AssociationList

structure WriterInfo where
  pubId : Nat
  ownershipStrength : Int
  deriving DecidableEq, Repr

/-- The default constructor. -/
def WriterInfo.none : WriterInfo := ⟨guidUnknown, 0⟩

/-- `std::sort` with `DescendingOwnershipStrengthSort`. -/
structure Sorting where
  sort : List WriterInfo → List WriterInfo
  perm : ∀ ws, (sort ws).Perm ws
  descending : ∀ ws, (sort ws).Pairwise fun w v => v.ownershipStrength ≤ w.ownershipStrength

/-- A sorting that keeps the order of writers of equal strength. -/
def Sorting.stable : Sorting where
  sort ws := ws.insertionSort fun w v => v.ownershipStrength ≤ w.ownershipStrength
  perm ws := List.perm_insertionSort _ ws
  descending ws := by
    have htotal : Std.Total fun w v : WriterInfo =>
        v.ownershipStrength ≤ w.ownershipStrength := ⟨fun w v => le_total _ _⟩
    have htrans : IsTrans WriterInfo fun w v =>
        v.ownershipStrength ≤ w.ownershipStrength := ⟨fun _ _ _ h₁ h₂ => h₂.trans h₁⟩
    exact List.pairwise_insertionSort _ ws

structure OwnershipWriterInfos where
  owner : WriterInfo
  candidates : List WriterInfo
  instanceStates : List Nat
  deriving DecidableEq, Repr

/-- The table, with the instance states it refers to. -/
structure Manager where
  infos : List (Nat × OwnershipWriterInfos)
  states : Nat → InstanceState

/-- The new entry of an instance, the instance states, and the answer to the caller. -/
structure Election where
  infos : OwnershipWriterInfos
  states : Nat → InstanceState
  result : Bool

section

variable (sorting : Sorting) (states : Nat → InstanceState) (infos : OwnershipWriterInfos)

def broadcastNewOwner (owner : Nat) : Nat → InstanceState := fun address =>
  if address ∈ infos.instanceStates then (states address).setOwner owner else states address

/-- `remove_owner` without the broadcast. -/
def promote (sort : Bool) : OwnershipWriterInfos :=
  match (if sort then sorting.sort infos.candidates else infos.candidates) with
  | [] => { infos with owner := .none, candidates := [] }
  | first :: rest => { infos with owner := first, candidates := rest }

def removeOwner (sort : Bool) : OwnershipWriterInfos × (Nat → InstanceState) :=
  let promoted := promote sorting infos sort
  (promoted, broadcastNewOwner states promoted promoted.owner.pubId)

def removeCandidate (pubId : Nat) : List WriterInfo → List WriterInfo
  | [] => []
  | c :: rest => if c.pubId = pubId then rest else c :: removeCandidate pubId rest

def removeWriterFrom (pubId : Nat) : Election :=
  if infos.owner.pubId = pubId then
    let removed := removeOwner sorting states infos false
    ⟨removed.1, removed.2, true⟩
  else ⟨{ infos with candidates := removeCandidate pubId infos.candidates }, states, false⟩

/-- The loop of `select_owner` over the candidates, with the addition of a writer that is
not among them, and whether the list has to be sorted. -/
def updateCandidate (pubId : Nat) (strength : Int) : List WriterInfo → List WriterInfo × Bool
  | [] => ([⟨pubId, strength⟩], true)
  | c :: rest =>
    if c.pubId = pubId then
      if c.ownershipStrength ≠ strength then (⟨c.pubId, strength⟩ :: rest, true)
      else (c :: rest, false)
    else (c :: (updateCandidate pubId strength rest).1, (updateCandidate pubId strength rest).2)

/-- The candidates after the loop, sorted where the source sorts them. -/
def reevaluated (candidates : List WriterInfo) (pubId : Nat) (strength : Int) : List WriterInfo :=
  let updated := updateCandidate pubId strength candidates
  if updated.2 then sorting.sort updated.1 else updated.1

/-- `select_owner` for a writer that is not the owner of an instance that has one. -/
def challenge (pubId : Nat) (strength : Int) : Election :=
  if strength > infos.owner.ownershipStrength then
    let removed := removeOwner sorting states
      { infos with
        candidates := reevaluated sorting (infos.candidates ++ [infos.owner]) pubId strength } false
    ⟨removed.1, removed.2, removed.1.owner.pubId = pubId⟩
  else
    ⟨{ infos with candidates := reevaluated sorting infos.candidates pubId strength }, states,
      infos.owner.pubId = pubId⟩

/-- `select_owner` for an instance with an entry, behind the registration of the state. -/
def selectFrom (pubId : Nat) (strength : Int) : Election :=
  if infos.owner.pubId = guidUnknown then
    ⟨{ infos with owner := ⟨pubId, strength⟩ }, broadcastNewOwner states infos pubId, true⟩
  else if infos.owner.pubId = pubId then
    if infos.owner.ownershipStrength ≤ strength then
      ⟨{ infos with owner := ⟨infos.owner.pubId, strength⟩ }, states, true⟩
    else
      let removed := removeOwner sorting states
        { infos with candidates := infos.candidates ++ [⟨pubId, strength⟩] } true
      ⟨removed.1, removed.2, removed.1.owner.pubId = pubId⟩
  else challenge sorting states infos pubId strength

end

namespace Manager

def find (m : Manager) (handle : Nat) : Option OwnershipWriterInfos := m.infos.lookup handle

/-- The entry of an instance is replaced, or a new one is made. -/
def store (m : Manager) (handle : Nat) (election : Election) : Manager where
  infos :=
    if (m.find handle).isSome then
      m.infos.map fun entry => if entry.1 = handle then (handle, election.infos) else entry
    else m.infos ++ [(handle, election.infos)]
  states := election.states

def erase (m : Manager) (handle : Nat) : List (Nat × OwnershipWriterInfos) :=
  m.infos.filter fun entry => entry.1 ≠ handle

/-- The registration of an instance state with an entry. `registered()` sets the flag that
it returns. -/
def register (m : Manager) (infos : OwnershipWriterInfos) (address : Nat) :
    OwnershipWriterInfos × (Nat → InstanceState) :=
  (if (m.states address).registered then infos
    else { infos with instanceStates := infos.instanceStates ++ [address] },
   Function.update m.states address { m.states address with registered := true })

def selectOwner (sorting : Sorting) (m : Manager) (handle pubId : Nat) (strength : Int)
    (address : Nat) : Bool × Manager :=
  match m.find handle with
  | some infos =>
    let registered := m.register infos address
    let election := selectFrom sorting registered.2 registered.1 pubId strength
    (election.result, m.store handle election)
  | none =>
    let registered := m.register ⟨⟨pubId, strength⟩, [], []⟩ address
    (true, m.store handle ⟨registered.1, broadcastNewOwner registered.2 registered.1 pubId, true⟩)

def isOwner (m : Manager) (handle pubId : Nat) : Bool :=
  match m.find handle with
  | some infos => infos.owner.pubId = pubId
  | none => false

def removeWriter (sorting : Sorting) (m : Manager) (handle pubId : Nat) : Bool × Manager :=
  match m.find handle with
  | some infos =>
    let election := removeWriterFrom sorting m.states infos pubId
    (election.result, m.store handle election)
  | none => (false, m)

def removeWriterFromAll (sorting : Sorting) (m : Manager) (pubId : Nat) : Manager :=
  (m.infos.map Prod.fst).foldl (fun m handle => (m.removeWriter sorting handle pubId).2) m

def removeWriters (m : Manager) (handle : Nat) : Manager :=
  match m.find handle with
  | some infos =>
    { infos := m.erase handle
      states := fun address =>
        if address ∈ infos.instanceStates then (m.states address).resetOwnership
        else m.states address }
  | none => m

def removeInstance (m : Manager) (address : Nat) : Manager :=
  match m.find (m.states address).handle with
  | some infos =>
    m.store (m.states address).handle
      ⟨{ infos with instanceStates := infos.instanceStates.erase address }, m.states, true⟩
  | none => m

section

variable {m : Manager} {handle handle' : Nat} {election : Election}

theorem find_store : (m.store handle election).find handle' =
    if handle' = handle then some election.infos else m.find handle' := by
  unfold Manager.store Manager.find
  cases hfind : m.infos.lookup handle with
  | none =>
    exact lookup_concat hfind
  | some infos =>
    rw [if_pos (by simp), lookup_replace, hfind]
    rfl

theorem find_store_self : (m.store handle election).find handle = some election.infos := by
  rw [find_store, if_pos rfl]

end

end Manager

end OpenDDS.Source.OwnershipManager
