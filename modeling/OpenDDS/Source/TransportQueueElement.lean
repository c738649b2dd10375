import Mathlib.Logic.Function.Basic

/-!
# Elements given to the links

`TransportQueueElement` (dds/DCPS/transport/framework/TransportQueueElement.{inl,cpp}) with
`TransportSendElement` and `TransportCustomizedElement`, and `DataLinkSet::send`
(DataLinkSet.inl), which gives one sample to all links of a set.

An element is known by what never changes of it: a customized one by a number of its own
and by `orig_`. What the element does with the sample (message blocks, ids) is left out. An
element that was freed has no fields.
-/
namespace OpenDDS.Source.TransportQueueElement

/-- The element of the sample, one customized for a link or made of the rest of another
one, or a fragment, whose `orig_` is null. -/
inductive Element where
  | send
  | customized (id : Nat) (orig : Element)
  | fragment (id : Nat)
  deriving DecidableEq

structure Fields where
  subLoanCount : Nat
  dropped : Bool
  deriving DecidableEq

inductive Notification where
  | dataDelivered
  | dataDropped (droppedByTransport : Bool)
  deriving DecidableEq

structure Elements where
  fields : Element → Option Fields
  allocated : Nat
  notified : List Notification

/-- A new `TransportSendElement`. -/
def Elements.ofSend (initialCount : Nat) : Elements where
  fields := Function.update (fun _ => none) .send (some ⟨initialCount, false⟩)
  allocated := 0
  notified := []

def Elements.set (s : Elements) (e : Element) (f : Option Fields) : Elements :=
  { s with fields := Function.update s.fields e f }

@[simp] theorem Elements.set_fields (s : Elements) (e : Element) (f : Option Fields) :
    (s.set e f).fields e = f := Function.update_self ..

theorem Elements.set_fields_of_ne (s : Elements) {e e' : Element} (f : Option Fields) (h : e' ≠ e) :
    (s.set e f).fields e' = s.fields e' := Function.update_of_ne h ..

@[simp] theorem Elements.set_allocated (s : Elements) (e : Element) (f : Option Fields) :
    (s.set e f).allocated = s.allocated := rfl

@[simp] theorem Elements.set_notified (s : Elements) (e : Element) (f : Option Fields) :
    (s.set e f).notified = s.notified := rfl

/-- `TransportCustomizedElement::alloc`. -/
def Elements.alloc (s : Elements) (orig : Option Element) : Element × Elements :=
  let e := match orig with
    | none => .fragment s.allocated
    | some orig => .customized s.allocated orig
  (e, { s.set e (some ⟨1, false⟩) with allocated := s.allocated + 1 })

def Elements.free (s : Elements) (e : Element) : Elements := s.set e none

/-- `--sub_loan_count_`: whether the new count is zero. -/
def Elements.takeLoan (s : Elements) (e : Element) : Option (Bool × Elements) :=
  (s.fields e).map fun f =>
    (f.subLoanCount - 1 = 0, s.set e (some { f with subLoanCount := f.subLoanCount - 1 }))

/-- `TransportSendElement::release_element`. -/
def Elements.releaseSend (s : Elements) (droppedByTransport : Bool) : Option Elements :=
  (s.fields .send).map fun f =>
    { s.free .send with
      notified := s.notified ++
        [if f.dropped then .dataDropped droppedByTransport else .dataDelivered] }

/-- `decision_made`: whether the element was released. -/
def decisionMade (droppedByTransport : Bool) : Element → Elements → Option (Bool × Elements)
  | .send, s =>
    match s.takeLoan .send with
    | none => none
    | some (false, s) => some (false, s)
    | some (true, s) => (s.releaseSend droppedByTransport).map (true, ·)
  | .fragment id, s =>
    match s.takeLoan (.fragment id) with
    | none => none
    | some (false, s) => some (false, s)
    | some (true, s) => some (true, s.free (.fragment id))
  | .customized id orig, s =>
    match s.takeLoan (.customized id orig) with
    | none => none
    | some (false, s) => some (false, s)
    | some (true, s) =>
      match decisionMade droppedByTransport orig s with
      | none => none
      | some (_, s) => some (true, s.free (.customized id orig))

def dataDropped (droppedByTransport : Bool) (e : Element) (s : Elements) :
    Option (Bool × Elements) :=
  match s.fields e with
  | none => none
  | some f =>
    decisionMade droppedByTransport e (s.set e (some { f with dropped := true }))

def dataDelivered (e : Element) (s : Elements) : Option (Bool × Elements) :=
  match s.fields e with
  | none => none
  | some f => decisionMade f.dropped e s

/-- `fragment`: the fragment and the rest. -/
def Elements.fragment (s : Elements) (e : Element) : (Element × Element) × Elements :=
  let (frag, s) := s.alloc none
  let (rest, s) := s.alloc (some e)
  ((frag, rest), s)

/-- `DataLinkSet::send` under way, and the elements the links hold. -/
structure Sending where
  elements : Elements
  unsent : Nat
  held : List Element

def Sending.start (n : Nat) : Sending := ⟨.ofSend n, n, []⟩

inductive Event where
  | send
  | fragment (e : Element)
  | dataDelivered (e : Element)
  | dataDropped (e : Element) (droppedByTransport : Bool)
  deriving DecidableEq

/-- The loop of `send` gives the next link its element, a link splits an element it holds,
or it decides its fate; `customHeader` says that the sample has a content filter. -/
def Sending.step (customHeader : Bool) (s : Sending) : Event → Option Sending
  | .send =>
    if s.unsent = 0 then none
    else if customHeader then
      let (tce, elements) := s.elements.alloc (some .send)
      some ⟨elements, s.unsent - 1, tce :: s.held⟩
    else some { s with unsent := s.unsent - 1, held := .send :: s.held }
  | .fragment e =>
    if e ∈ s.held then
      let ((frag, rest), elements) := s.elements.fragment e
      some { s with elements, held := frag :: rest :: s.held.erase e }
    else none
  | .dataDelivered e =>
    if e ∈ s.held then
      (TransportQueueElement.dataDelivered e s.elements).map fun (_, elements) =>
        { s with elements, held := s.held.erase e }
    else none
  | .dataDropped e droppedByTransport =>
    if e ∈ s.held then
      (TransportQueueElement.dataDropped droppedByTransport e s.elements).map fun (_, elements) =>
        { s with elements, held := s.held.erase e }
    else none

end OpenDDS.Source.TransportQueueElement
