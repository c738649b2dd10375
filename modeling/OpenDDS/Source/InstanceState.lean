import OpenDDS.Source.SampleReception
import Mathlib.Data.Finset.Basic

/-!
`OpenDDS::DCPS::InstanceState` (dds/DCPS/InstanceState.{h,inl,cpp}): the lifecycle of one
instance of a data reader, with the owner that an `OwnershipManager` keeps in it. The
counters are unbounded. A release timer that is set is remembered and not its number; its
expiry is an event of its own. What `release` does to the reader is modelled with the
reader: here the functions say whether the instance is to be released.
-/
namespace OpenDDS.Source
open SampleReception
open QosHelper (durationInfinite)

/-- `instance_state_`, with the value it is constructed with. -/
inductive InstanceStateKind where
  | unset
  | alive
  | notAliveDisposed
  | notAliveNoWriters
  deriving DecidableEq, Repr

/-- `view_state_`, with the value it is constructed with. -/
inductive ViewStateKind where
  | unset
  | new
  | notNew
  deriving DecidableEq, Repr

structure ReaderDataLifecycle where
  autopurgeNowriterSamplesDelay : Duration_t
  autopurgeDisposedSamplesDelay : Duration_t

structure InstanceState where
  handle : Nat
  exclusive : Bool
  instanceState : InstanceStateKind
  viewState : ViewStateKind
  disposedGenerationCount : Nat
  noWritersGenerationCount : Nat
  empty : Bool
  releasePending : Bool
  releaseTimer : Bool
  writers : Finset Nat
  owner : Nat
  registered : Bool

namespace InstanceState

def create (handle : Nat) (exclusive : Bool) : InstanceState where
  handle := handle
  exclusive := exclusive
  instanceState := .unset
  viewState := .unset
  disposedGenerationCount := 0
  noWritersGenerationCount := 0
  empty := true
  releasePending := false
  releaseTimer := false
  writers := ∅
  owner := guidUnknown
  registered := false

def cancelRelease (s : InstanceState) : InstanceState :=
  { s with releasePending := false, releaseTimer := false }

def schedulePending (s : InstanceState) : InstanceState := { s with releasePending := true }

/-- `schedule_release` once the delay is known. -/
def scheduleAfter (s : InstanceState) (delay : Duration_t) : InstanceState :=
  if delay.sec ≠ durationInfinite.sec ∧ delay.nanosec ≠ durationInfinite.nanosec then
    { s.cancelRelease with releaseTimer := true }
  else s.schedulePending

def scheduleRelease (s : InstanceState) (qos : ReaderDataLifecycle) : InstanceState :=
  match s.instanceState with
  | .notAliveNoWriters => s.scheduleAfter qos.autopurgeNowriterSamplesDelay
  | .notAliveDisposed => s.scheduleAfter qos.autopurgeDisposedSamplesDelay
  | _ => s

def accessed (s : InstanceState) : InstanceState :=
  { s with viewState := if s.viewState = .unset then .unset else .notNew }

def receivedView (view : ViewStateKind) (state : InstanceStateKind) : ViewStateKind :=
  match view with
  | .new => .new
  | .notNew => if state = .notAliveDisposed ∨ state = .notAliveNoWriters then .new else .notNew
  | .unset => .new

def dataWasReceived (s : InstanceState) (writer : Nat) : InstanceState :=
  { s.cancelRelease with
    writers := insert writer s.writers
    viewState := receivedView s.viewState s.instanceState
    disposedGenerationCount :=
      if s.instanceState = .notAliveDisposed then s.disposedGenerationCount + 1
      else s.disposedGenerationCount
    noWritersGenerationCount :=
      if s.instanceState = .notAliveNoWriters then s.noWritersGenerationCount + 1
      else s.noWritersGenerationCount
    instanceState := .alive }

def lively (s : InstanceState) (writer : Nat) : InstanceState :=
  if s.instanceState = .notAliveNoWriters then
    { s.cancelRelease with
      writers := insert writer s.writers
      noWritersGenerationCount := s.noWritersGenerationCount + 1
      instanceState := .alive }
  else { s with writers := insert writer s.writers }

/-- `isOwner` is the answer of the ownership manager for the writer. The result says
whether the reader is to be notified. -/
def disposeWasReceived (s : InstanceState) (qos : ReaderDataLifecycle) (isOwner : Bool)
    (writer : Nat) : Bool × InstanceState :=
  let erased := { s with writers := s.writers.erase writer }
  if s.instanceState = .alive ∧ (s.exclusive = false ∨ isOwner = true) then
    (true, { erased with instanceState := .notAliveDisposed }.scheduleRelease qos)
  else (false, erased)

/-- The end of `unregister_was_received` and of `writer_became_dead`. -/
def withdraw (s : InstanceState) (qos : ReaderDataLifecycle) (writer : Nat) :
    Bool × InstanceState :=
  let erased := { s with writers := s.writers.erase writer }
  if erased.writers = ∅ ∧ s.instanceState = .alive then
    (true, { erased with instanceState := .notAliveNoWriters }.scheduleRelease qos)
  else (false, erased)

/-- `unregister_was_received`, except for the ownership manager, which an instance with
exclusive ownership calls. -/
def unregisterWasReceived (s : InstanceState) (qos : ReaderDataLifecycle) (writer : Nat) :
    Bool × InstanceState :=
  s.withdraw qos writer

def writerBecameDead (s : InstanceState) (qos : ReaderDataLifecycle) (writer : Nat) :
    InstanceState :=
  (s.withdraw qos writer).2

/-- `release_if_empty`, and whether the instance is released. -/
def releaseIfEmpty (s : InstanceState) : Bool × InstanceState :=
  if s.empty ∧ s.writers = ∅ then (true, s) else (false, s.schedulePending)

/-- `empty(value)`, and whether the instance is released. -/
def setEmpty (s : InstanceState) (value : Bool) : Bool × InstanceState :=
  if value ∧ s.releasePending then { s with empty := value }.releaseIfEmpty
  else (false, { s with empty := value })

def setOwner (s : InstanceState) (owner : Nat) : InstanceState := { s with owner := owner }

/-- `reset_ownership`; the flags of the reader's writers are reset by the reader. -/
def resetOwnership (s : InstanceState) : InstanceState :=
  { s with owner := guidUnknown, registered := false }

variable (s : InstanceState) (qos : ReaderDataLifecycle) (writer : Nat)

theorem scheduleRelease_eq : ∃ pending timer,
    s.scheduleRelease qos = { s with releasePending := pending, releaseTimer := timer } := by
  have after : ∀ delay, ∃ pending timer,
      s.scheduleAfter delay = { s with releasePending := pending, releaseTimer := timer } := by
    intro delay
    unfold scheduleAfter
    split
    · exact ⟨false, true, rfl⟩
    · exact ⟨true, s.releaseTimer, rfl⟩
  unfold scheduleRelease
  split
  · exact after _
  · exact after _
  · exact ⟨s.releasePending, s.releaseTimer, rfl⟩

theorem disposeWasReceived_cases (isOwner : Bool) :
    (s.disposeWasReceived qos isOwner writer).2 = { s with writers := s.writers.erase writer } ∧
        (s.disposeWasReceived qos isOwner writer).1 = false ∧
        ¬ (s.instanceState = .alive ∧ (s.exclusive = false ∨ isOwner = true)) ∨
      (s.disposeWasReceived qos isOwner writer).1 = true ∧ s.instanceState = .alive ∧
        ∃ pending timer, (s.disposeWasReceived qos isOwner writer).2 =
          { s with writers := s.writers.erase writer, instanceState := .notAliveDisposed,
                   releasePending := pending, releaseTimer := timer } := by
  unfold disposeWasReceived
  split
  · rename_i h
    obtain ⟨pending, timer, heq⟩ := scheduleRelease_eq
      { s with writers := s.writers.erase writer, instanceState := .notAliveDisposed } qos
    exact .inr ⟨rfl, h.1, pending, timer, heq⟩
  · rename_i h
    exact .inl ⟨rfl, rfl, h⟩

theorem withdraw_cases :
    (s.withdraw qos writer).2 = { s with writers := s.writers.erase writer } ∧
        (s.withdraw qos writer).1 = false ∧
        ¬ (s.writers.erase writer = ∅ ∧ s.instanceState = .alive) ∨
      (s.withdraw qos writer).1 = true ∧ s.instanceState = .alive ∧ s.writers.erase writer = ∅ ∧
        ∃ pending timer, (s.withdraw qos writer).2 =
          { s with writers := s.writers.erase writer, instanceState := .notAliveNoWriters,
                   releasePending := pending, releaseTimer := timer } := by
  unfold withdraw
  dsimp only
  split
  · rename_i h
    obtain ⟨pending, timer, heq⟩ := scheduleRelease_eq
      { s with writers := s.writers.erase writer, instanceState := .notAliveNoWriters } qos
    exact .inr ⟨rfl, h.2, h.1, pending, timer, heq⟩
  · rename_i h
    exact .inl ⟨rfl, rfl, h⟩

end InstanceState

end OpenDDS.Source
