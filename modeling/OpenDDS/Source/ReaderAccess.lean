import OpenDDS.Source.RakeSelection

/-!
The calls by which an application reads and takes samples (dds/idl/CPPTemplate.txt): `read`,
`take`, `read_instance`, `take_instance`, `read_next_instance`, `take_next_instance`, each of them
with masks or with a condition, and `contains_sample_filtered`. The access scope of the
subscriber is not GROUP.
Each call checks its sequences first. `check_inputs` gets `max_samples` by value, so that what it
computes from it is not what the samples are counted by.
-/
namespace OpenDDS.Source.ReaderCache
open Library.LinkedList

/-- The sequences of the caller, of samples and of their infos. `slots` is the room that a sequence
without a buffer of its own has for loans. -/
structure Sequences where
  length : Nat
  infoLength : Nat
  maximum : Nat
  release : Bool
  slots : Nat

inductive ReturnCode where
  | ok
  | noData
  | badParameter
  | preconditionNotMet
  deriving DecidableEq, Repr

def Sequences.maxSlots (sequences : Sequences) : Nat :=
  if sequences.maximum = 0 then sequences.slots else sequences.maximum

def checkInputs (sequences : Sequences) (maxSamples : Int) : ReturnCode :=
  if sequences.length ≠ sequences.infoLength then .preconditionNotMet
  else if 0 < sequences.maximum ∧ sequences.release = false then .preconditionNotMet
  else if sequences.maximum ≠ 0 ∧ maxSamples ≠ lengthUnlimited ∧
      maxSamples > toLong sequences.maximum then .preconditionNotMet
  else .ok

/-- What `max_samples` is at the end of `check_inputs`, and is lost there. -/
def checkedSamples (sequences : Sequences) (maxSamples : Int) : Int :=
  let wanted := if maxSamples = lengthUnlimited then toLong sequences.maxSlots else maxSamples
  if toLong sequences.maxSlots < wanted then toLong sequences.maxSlots else wanted

/-- The samples that are asked for, by masks or by a condition. `attached` says that the condition
is one of the reader's own. -/
inductive Choice (δ : Type) where
  | states (masks : Masks)
  | condition (attached : Bool) (masks : Masks) (query : Option (QueryCondition δ))

namespace Choice

variable {δ : Type}

def masks : Choice δ → Masks
  | states masks => masks
  | condition _ masks _ => masks

def query : Choice δ → Option (QueryCondition δ)
  | states _ => none
  | condition _ _ query => query

/-- `has_readcondition`, where it is asked. -/
def permitted : Choice δ → Bool
  | states _ => true
  | condition attached _ _ => attached

end Choice

/-- The arguments of a call. `orderedTopic` is the presentation of the subscriber. -/
structure Call (δ : Type) where
  sequences : Sequences
  maxSamples : Int
  choice : Choice δ
  orderedTopic : Bool

/-- The arguments of `RakeResults`. -/
def Call.request {δ : Type} (call : Call δ) : Request δ where
  maxSamples := call.maxSamples
  orderedTopic := call.orderedTopic
  cond := call.choice.query
  zeroCopy := decide (call.sequences.maximum = 0)

/-- What a call returns, the sequences if it has written them, and the cache afterwards. -/
structure Access (δ : Type) where
  code : ReturnCode
  output : Option (Output δ)
  cache : Cache δ

namespace Access

variable {δ : Type}

/-- The end of each call that gets to `copy_to_user`. -/
def answer (result : Output δ × Cache δ) : Access δ where
  code := if result.1.receivedData.length = 0 then .noData else .ok
  output := some result.1
  cache := result.2

end Access

namespace Cache

variable {δ : Type} (c : Cache δ)

def checked (call : Call δ) (body : Except Fault (Access δ)) : Except Fault (Access δ) :=
  if checkInputs call.sequences call.maxSamples ≠ .ok then .ok ⟨.preconditionNotMet, none, c⟩
  else if call.choice.permitted then body
  else .ok ⟨.preconditionNotMet, none, c⟩

def read (call : Call δ) : Except Fault (Access δ) :=
  c.checked call ((c.readI call.request call.choice.masks).map .answer)

def take (call : Call δ) : Except Fault (Access δ) :=
  c.checked call ((c.takeI call.request call.choice.masks).map .answer)

/-- `read_instance_i`, with its guard. -/
def readOne (call : Call δ) (handle : Nat) : Except Fault (Access δ) :=
  match c.getHandleInstance handle with
  | none => .ok ⟨.badParameter, none, c⟩
  | some _ => (c.readInstanceI call.request call.choice.masks handle).map .answer

/-- `take_instance_i`, which has no such guard. -/
def takeOne (call : Call δ) (handle : Nat) : Except Fault (Access δ) :=
  (c.takeInstanceI call.request call.choice.masks handle).map .answer

def readInstance (call : Call δ) (handle : Nat) : Except Fault (Access δ) :=
  c.checked call (c.readOne call handle)

def takeInstance (call : Call δ) (handle : Nat) : Except Fault (Access δ) :=
  c.checked call (c.takeOne call handle)

/-- The instances behind `handle` in the order of `instance_map_`, or all of them behind
`HANDLE_NIL`. -/
def handlesAfter (handle : Nat) : List Nat :=
  if handle = 0 then c.instanceMap.map Prod.snd
  else ((c.instanceMap.map Prod.snd).dropWhile fun other => other ≠ handle).tail

end Cache

/-- The first instance whose samples are not missing. -/
def nextInstance {δ : Type} (visit : Cache δ → Nat → Except Fault (Access δ)) :
    List Nat → Access δ → Except Fault (Access δ)
  | [], last => .ok { last with code := .noData }
  | handle :: rest, last => do
    let access ← visit last.cache handle
    if access.code = .noData then nextInstance visit rest access else .ok access

namespace Cache

variable {δ : Type} (c : Cache δ)

def readNextInstance (call : Call δ) (handle : Nat) : Except Fault (Access δ) :=
  c.checked call (nextInstance (fun c => c.readOne call) (c.handlesAfter handle) ⟨.noData, none, c⟩)

def takeNextInstance (call : Call δ) (handle : Nat) : Except Fault (Access δ) :=
  c.checked call (nextInstance (fun c => c.takeOne call) (c.handlesAfter handle) ⟨.noData, none, c⟩)

/-- The samples of one list, up to the first that the evaluator accepts. -/
def anyItem (evaluator : δ → Bool) : List Nat → Except Fault Bool
  | [] => .ok false
  | item :: rest =>
    match (c.element item).registeredData with
    | none => .error .nullData
    | some data => if evaluator data then .ok true else anyItem evaluator rest

def anyInstance (masks : Masks) (evaluator : δ → Bool) : List Nat → Except Fault Bool
  | [] => .ok false
  | handle :: rest => do
    let inst ← c.deref handle
    if masks.admitsInstance inst.instanceState then
      match walk c.links.nextDataSample inst.rcvdSamples.size.toNat inst.rcvdSamples.head with
      | none => .error .brokenList
      | some items => do
        let found ← c.anyItem evaluator (items.filter fun item => masks.admitsSample (c.element item))
        if found then .ok true else anyInstance masks evaluator rest
    else anyInstance masks evaluator rest

/-- The instances in the order of `instances_`. -/
def handlesInOrder : List Nat := (c.instances.map Prod.fst).mergeSort

def containsSampleFiltered (masks : Masks) (evaluator : δ → Bool) : Except Fault Bool :=
  c.anyInstance masks evaluator c.handlesInOrder

end Cache

end OpenDDS.Source.ReaderCache
