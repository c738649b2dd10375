import OpenDDS.Source.OwnershipEntries

/-!
The ownership part of `DataReaderImpl::filter_instance` (dds/DCPS/DataReaderImpl.cpp) and of
what else changes the ownership of one instance of a reader with exclusive ownership: the
flags of `WriterInfo` (dds/DCPS/WriterInfo.cpp), the strengths of the writers, and the calls
of the ownership manager. The reader has made the instance or not, as `store_instance_data`
does for the first sample. Releasing the instance is not modelled.
-/
namespace OpenDDS.Source.OwnershipFilter
open OwnershipManager

/-- The part of a `WriterInfo` that ownership reads; the writer is its key in `writers_`. -/
structure WriterOwnership where
  ownershipStrength : Int
  ownerEvaluated : Nat → Option Bool

namespace WriterOwnership

def clearOwnerEvaluated (w : WriterOwnership) : WriterOwnership :=
  { w with ownerEvaluated := fun _ => none }

def setOwnerEvaluated (w : WriterOwnership) (handle : Nat) (flag : Bool) : WriterOwnership :=
  if flag ∨ (w.ownerEvaluated handle).isSome then
    { w with ownerEvaluated := Function.update w.ownerEvaluated handle (some flag) }
  else w

/-- `is_owner_evaluated`, which enters a flag that is missing. -/
def isOwnerEvaluated (w : WriterOwnership) (handle : Nat) : Bool × WriterOwnership :=
  match w.ownerEvaluated handle with
  | some flag => (flag, w)
  | none => (false, { w with ownerEvaluated := Function.update w.ownerEvaluated handle (some false) })

theorem setOwnerEvaluated_strength (w : WriterOwnership) (handle : Nat) (flag : Bool) :
    (w.setOwnerEvaluated handle flag).ownershipStrength = w.ownershipStrength := by
  unfold setOwnerEvaluated
  split <;> rfl

theorem isOwnerEvaluated_strength (w : WriterOwnership) (handle : Nat) :
    (w.isOwnerEvaluated handle).2.ownershipStrength = w.ownershipStrength := by
  unfold isOwnerEvaluated
  split <;> rfl

theorem isOwnerEvaluated_iff (w : WriterOwnership) (handle : Nat) :
    (w.isOwnerEvaluated handle).1 = true ↔ w.ownerEvaluated handle = some true := by
  unfold isOwnerEvaluated
  split
  · rename_i flag hflag
    simp [hflag]
  · rename_i hflag
    simp [hflag]

end WriterOwnership

/-- A reader and its one instance: the handle, the address of the instance state, and
whether the instance has been made. -/
structure Reader where
  handle : Nat
  address : Nat
  made : Bool
  writers : Nat → Option WriterOwnership
  manager : Manager

namespace Reader

variable (sorting : Sorting) (r : Reader) (pubId : Nat)

def owner : Nat := (r.manager.states r.address).owner

def setWriter (w : WriterOwnership) : Reader :=
  { r with writers := Function.update r.writers pubId (some w) }

/-- The evaluation of the owner in `filter_instance`. -/
def evaluate (w : WriterOwnership) : Bool × Reader :=
  let selected := r.manager.selectOwner sorting r.handle pubId w.ownershipStrength r.address
  (!selected.1, { r with manager := selected.2 }.setWriter pubId (w.setOwnerEvaluated r.handle true))

/-- `filter_instance` without TIME_BASED_FILTER: whether the sample is filtered. -/
def filterInstance : Bool × Reader :=
  match r.writers pubId with
  | none => (true, r)
  | some w =>
    if r.owner = guidUnknown then r.evaluate sorting pubId w
    else if (w.isOwnerEvaluated r.handle).1 then
      (decide (r.owner ≠ pubId), r.setWriter pubId (w.isOwnerEvaluated r.handle).2)
    else r.evaluate sorting pubId (w.isOwnerEvaluated r.handle).2

/-- A SAMPLE_DATA message: the instance is made if it is new, and the sample is checked. -/
def sampleData : Bool × Reader := { r with made := true }.filterInstance sorting pubId

def unregisterInstance : Reader :=
  if r.made then { r with manager := (r.manager.removeWriter sorting r.handle pubId).2 } else r

def updateOwnershipStrength (strength : Int) : Reader :=
  match r.writers pubId with
  | none => r
  | some w =>
    if strength ≠ w.ownershipStrength then
      r.setWriter pubId { w with ownershipStrength := strength }.clearOwnerEvaluated
    else r

def writerBecameDead : Reader :=
  match r.writers pubId with
  | none => r
  | some w =>
    { r with manager := r.manager.removeWriterFromAll sorting pubId }.setWriter pubId
      w.clearOwnerEvaluated

/-- `writer_removed`, with the removal from `writers_`. -/
def writerRemoved : Reader :=
  match r.writers pubId with
  | none => r
  | some _ =>
    { r with
      manager := r.manager.removeWriterFromAll sorting pubId
      writers := Function.update r.writers pubId none }

/-- `add_association`; the insertion is idempotent. -/
def addAssociation (strength : Int) : Reader :=
  match r.writers pubId with
  | none => r.setWriter pubId ⟨strength, fun _ => none⟩
  | some _ => r

end Reader

end OpenDDS.Source.OwnershipFilter
