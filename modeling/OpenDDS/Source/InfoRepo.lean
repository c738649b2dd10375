import OpenDDS.Source.QosMatching

/-!
# The objects of a domain

`DCPS_IR_Domain` (dds/InfoRepo) with its participants, topics, topic descriptions, publications and
subscriptions. An object is known by its id, which is never given twice, and a pointer is the id of
what it points to: an object that was deleted is not found any more. `none` stands for the use of
a deleted object, or for the inconsistent state about which `remove_topic` throws. A call that is
refused with an exception leaves everything as it is.

The maps of publications of all participants are one map, and so are those of subscriptions. The
built-in topics and their publisher, the updates of the federation, `defunct_`, which is for the
calls that ignore something, and failed allocations are left out; `um` says whether there is an
update manager. A participant whose client is not reached is removed by a call of its own,
`remove_participant` in `remove_dead_participants`. `ACE::wild_match` is a parameter.
-/
namespace OpenDDS.Source.InfoRepo

open QosMatching

/-- `DCPS_IR_Participant`, without its publications and subscriptions. -/
structure Participant where
  isOwner : Bool
  topicRefs : List Nat
  ignoredParticipants : List Nat
  ignoredTopics : List Nat
  /-- `ignoredPublications_` and `ignoredSubscriptions_`. -/
  ignoredEndpoints : Kind → List Nat

/-- `DCPS_IR_Topic`. -/
structure Topic where
  creator : Nat
  description : Nat
  /-- `publicationRefs_` and `subscriptionRefs_`. -/
  refs : Kind → List Nat
  removed : Bool

/-- `DCPS_IR_Topic_Description`. -/
structure Description where
  name : String
  dataTypeName : String
  topics : List Nat
  subscriptionRefs : List Nat

/-- `DCPS_IR_Publication` and `DCPS_IR_Subscription`. -/
structure Endpoint (δ : Type) where
  participant : Nat
  topic : Nat
  qos : EndpointQos δ

structure Registry where
  participants : Nat → Option Participant
  topics : Nat → Option Topic
  descriptions : Nat → Option Description
  idToTopicMap : List Nat
  topicDescriptions : List Nat

def Registry.setParticipant (p : Nat) (P : Option Participant) (r : Registry) : Registry :=
  { r with participants := Function.update r.participants p P }

def Registry.setTopic (t : Nat) (T : Option Topic) (r : Registry) : Registry :=
  { r with topics := Function.update r.topics t T }

def Registry.setDescription (d : Nat) (D : Option Description) (r : Registry) : Registry :=
  { r with descriptions := Function.update r.descriptions d D }

def Registry.findTopicDescription (name : String) (r : Registry) : Option (Nat × Description) :=
  r.topicDescriptions.findSome? fun d =>
    (r.descriptions d).bind fun D => if D.name = name then some (d, D) else none

/-- The end of `add_topic_i`: the topic in its description, its creator and the map of ids. -/
def Registry.insertTopic (p t d : Nat) (P : Participant) (D : Description) (r : Registry) :
    Registry :=
  let r := r.setTopic t (some ⟨p, d, fun _ => [], false⟩)
  let r := r.setDescription d (some { D with topics := D.topics ++ [t] })
  let r := r.setParticipant p (some { P with topicRefs := P.topicRefs ++ [t] })
  { r with idToTopicMap := r.idToTopicMap ++ [t] }

/-- `add_topic_i`; a new description gets the id of the topic. -/
def Registry.addTopic (p t : Nat) (name dataTypeName : String) (r : Registry) : Registry :=
  match r.participants p with
  | none => r
  | some P =>
    match r.findTopicDescription name with
    | some (d, D) => if D.dataTypeName ≠ dataTypeName then r else r.insertTopic p t d P D
    | none =>
      let r := { r with topicDescriptions := r.topicDescriptions ++ [t] }
      r.insertTopic p t t P ⟨name, dataTypeName, [], []⟩

/-- `add_publication_reference` and `add_subscription_reference`. -/
def Registry.addReference (k : Kind) (t e : Nat) (r : Registry) : Option Registry := do
  let T ← r.topics t
  let D ← r.descriptions T.description
  let r := r.setTopic t (some { T with refs := Function.update T.refs k (T.refs k ++ [e]) })
  match k with
  | .writer => some r
  | .reader =>
    some (r.setDescription T.description
      (some { D with subscriptionRefs := D.subscriptionRefs ++ [e] }))

/-- `remove_publication_reference` and `remove_subscription_reference`. -/
def Registry.removeReference (k : Kind) (t e : Nat) (r : Registry) : Option Registry := do
  let T ← r.topics t
  if e ∈ T.refs k then
    let r := r.setTopic t
      (some { T with refs := Function.update T.refs k ((T.refs k).filter (· ≠ e)) })
    match k with
    | .writer => some r
    | .reader =>
      let D ← r.descriptions T.description
      some (r.setDescription T.description
        (some { D with subscriptionRefs := D.subscriptionRefs.filter (· ≠ e) }))
  else some r

def Topic.unused (T : Topic) : Bool := (T.refs .writer).isEmpty && (T.refs .reader).isEmpty

/-- `DCPS_IR_Topic::release`. -/
def Registry.release (removing : Bool) (t : Nat) (r : Registry) : Option Registry := do
  let T ← r.topics t
  let T := { T with removed := T.removed || removing }
  if T.removed && T.unused then
    some { r.setTopic t none with idToTopicMap := r.idToTopicMap.filter (· ≠ t) }
  else some (r.setTopic t (some T))

/-- `DCPS_IR_Domain::remove_topic`. -/
def Registry.removeTopic (p t : Nat) (r : Registry) : Option Registry := do
  let T ← r.topics t
  let D ← r.descriptions T.description
  if t ∈ D.topics then
    let topics := D.topics.filter (· ≠ t)
    let r := if topics = [] then
        { r.setDescription T.description none with
          topicDescriptions := r.topicDescriptions.filter (· ≠ T.description) }
      else r.setDescription T.description (some { D with topics })
    let P ← r.participants p
    let r := r.setParticipant p (some { P with topicRefs := P.topicRefs.filter (· ≠ t) })
    r.release true t
  else none

variable {δ : Type}

/-- `associations_` of the publications and of the subscriptions. -/
abbrev Associations := Kind → Nat → List Nat

def Associations.insert (k : Kind) (e e' : Nat) (a : Associations) : Associations :=
  fun k' x => if k' = k ∧ x = e then a k' x ++ [e'] else a k' x

def Associations.remove (k : Kind) (e e' : Nat) (a : Associations) : Associations :=
  fun k' x => if k' = k ∧ x = e then (a k' x).filter (· ≠ e') else a k' x

/-- `associate`: the publication is told first, and the subscription is not told if the client of
the publication was not reached. -/
def Associations.associate (reached : Bool) (w r : Nat) (a : Associations) : Associations :=
  let a := a.insert .writer w r
  if reached then a.insert .reader r w else a

structure Domain (δ : Type) where
  registry : Registry
  /-- `publications_` and `subscriptions_` of all participants. -/
  endpoints : Kind → List (Nat × Endpoint δ)
  associations : Associations
  /-- The id that is given next. -/
  next : Nat

def Domain.create : Domain δ :=
  ⟨⟨fun _ => none, fun _ => none, fun _ => none, [], []⟩, fun _ => [], fun _ _ => [], 0⟩

def Domain.endpoint (k : Kind) (e : Nat) (s : Domain δ) : Option (Endpoint δ) :=
  (s.endpoints k).lookup e

/-- `publications_` and `subscriptions_` of one participant. -/
def Domain.endpointsOf (k : Kind) (p : Nat) (s : Domain δ) : List (Nat × Endpoint δ) :=
  (s.endpoints k).filter fun entry => entry.2.participant = p

def Domain.addParticipant (isOwner : Bool) (s : Domain δ) : Domain δ :=
  { s with
    registry := s.registry.setParticipant s.next (some ⟨isOwner, [], [], [], fun _ => []⟩)
    next := s.next + 1 }

/-- `assert_topic`. -/
def Domain.addTopic (p : Nat) (name dataTypeName : String) (s : Domain δ) : Domain δ :=
  { s with registry := s.registry.addTopic p s.next name dataTypeName, next := s.next + 1 }

def Domain.removeTopic (p t : Nat) (s : Domain δ) : Option (Domain δ) :=
  match s.registry.participants p with
  | none => some s
  | some P =>
    if t ∈ P.topicRefs then do
      let registry ← s.registry.removeTopic p t
      some { s with registry }
    else some s

/-- `is_publication_ignored` and `is_subscription_ignored`. -/
def Participant.ignores (k : Kind) (e : Nat) (E : Endpoint δ) (P : Participant) : Bool :=
  P.ignoredParticipants.contains E.participant || P.ignoredTopics.contains E.topic ||
    (P.ignoredEndpoints k).contains e

/-- What a new publication may be associated with, the subscriptions of the description, or a new
subscription, the publications of the topics of the description. -/
def Registry.candidates (k : Kind) (t : Nat) (r : Registry) : Option (List Nat) := do
  let T ← r.topics t
  let D ← r.descriptions T.description
  match k with
  | .writer => some D.subscriptionRefs
  | .reader => (D.topics.mapM fun t => (r.topics t).map fun T => T.refs .writer).map List.flatten

section

variable (wildMatch : List Char → List Char → Bool) (k : Kind)

/-- `try_associate` of a new endpoint; `reached` says whether the client of the publication is
reached. -/
def Domain.tryAssociate (e : Nat) (E : Endpoint δ) (reached : Nat → Bool) (s : Domain δ)
    (a : Associations) (e' : Nat) : Option Associations := do
  let E' ← s.endpoint k.other e'
  let P ← s.registry.participants E.participant
  let P' ← s.registry.participants E'.participant
  if P.ignores k.other e' E' || P'.ignores k e E || !compatible wildMatch k E.qos E'.qos then some a
  else
    match k with
    | .writer => some (a.associate (reached e') e e')
    | .reader => some (a.associate (reached e') e' e)

/-- `try_associate_publication` and `try_associate_subscription`. -/
def Domain.tryAssociateEndpoint (e : Nat) (E : Endpoint δ) (reached : Nat → Bool) (s : Domain δ) :
    Option (Domain δ) := do
  let candidates ← s.registry.candidates k E.topic
  let associations ← candidates.foldlM (s.tryAssociate wildMatch k e E reached) s.associations
  some { s with associations }

/-- A new endpoint in its participant and its topic. -/
def Domain.insertEndpoint (E : Endpoint δ) (s : Domain δ) : Option (Domain δ) := do
  let registry ← s.registry.addReference k E.topic s.next
  some
    { s with
      registry
      endpoints := Function.update s.endpoints k (s.endpoints k ++ [(s.next, E)])
      next := s.next + 1 }

/-- `add_publication` and `add_subscription`. -/
def Domain.addEndpoint (p t : Nat) (qos : EndpointQos δ) (reached : Nat → Bool) (s : Domain δ) :
    Option (Domain δ) :=
  if (s.registry.participants p).isSome ∧ t ∈ s.registry.idToTopicMap then do
    let added ← s.insertEndpoint k ⟨p, t, qos⟩
    added.tryAssociateEndpoint wildMatch k s.next ⟨p, t, qos⟩ reached
  else some s

end

/-- One turn of the loops of `remove_all_dependents`, also in `remove_publication`. -/
def Registry.dropReference (k : Kind) (t e : Nat) (r : Registry) : Option Registry := do
  let r ← r.removeReference k t e
  r.release false t

/-- `remove_associations`: the endpoint and each one that it is associated with forget each other. -/
def Domain.removeAssociations (k : Kind) (e : Nat) (s : Domain δ) (a : Associations) :
    Option Associations :=
  (a k e).foldlM (fun a e' =>
    if (s.endpoint k.other e').isSome then some ((a.remove k.other e' e).remove k e e') else none) a

/-- The end of an endpoint without associations. -/
def Domain.dropEndpoint (k : Kind) (e : Nat) (E : Endpoint δ) (s : Domain δ) : Option (Domain δ) := do
  let registry ← s.registry.dropReference k E.topic e
  some
    { s with
      registry
      endpoints := Function.update s.endpoints k ((s.endpoints k).filter fun entry => entry.1 ≠ e) }

/-- `remove_publication` and `remove_subscription`. -/
def Domain.removeEndpoint (k : Kind) (p e : Nat) (s : Domain δ) : Option (Domain δ) :=
  match s.registry.participants p, s.endpoint k e with
  | some _, some E =>
    if E.participant = p then do
      let associations ← s.removeAssociations k e s.associations
      { s with associations }.dropEndpoint k e E
    else some s
  | _, _ => some s

/-- The loops over the associations in `remove_all_dependents`, which no other part of it touches. -/
def Domain.removeAllAssociations (p : Nat) (s : Domain δ) : Option Associations := do
  let a ← (s.endpointsOf .writer p).foldlM (fun a entry =>
    s.removeAssociations .writer entry.1 a) s.associations
  (s.endpointsOf .reader p).foldlM (fun a entry => s.removeAssociations .reader entry.1 a) a

/-- The rest of `remove_all_dependents`, and the end of the participant. -/
def Domain.dropParticipant (um : Bool) (p : Nat) (P : Participant) (s : Domain δ) :
    Option (Domain δ) := do
  let r ← (s.endpointsOf .writer p).foldlM (fun r entry =>
    r.dropReference .writer entry.2.topic entry.1) s.registry
  let r ← (s.endpointsOf .reader p).foldlM (fun r entry =>
    r.dropReference .reader entry.2.topic entry.1) r
  let r ← if um then P.topicRefs.foldlM (fun r t => r.removeTopic p t) r else some r
  some
    { s with
      registry := r.setParticipant p none
      endpoints := fun k => (s.endpoints k).filter fun entry => entry.2.participant ≠ p }

def Domain.removeParticipant (um : Bool) (p : Nat) (s : Domain δ) : Option (Domain δ) :=
  match s.registry.participants p with
  | none => some s
  | some P => do
    let associations ← s.removeAllAssociations p
    { s with associations }.dropParticipant um p P

end OpenDDS.Source.InfoRepo
