import OpenDDS.Library.AssociationList
import OpenDDS.Source.ParticipantDiscovery
import OpenDDS.Source.QosMatching

/-!
# Endpoint discovery

The endpoints of `OpenDDS::RTPS::Sedp` (dds/DCPS/RTPS/Sedp.cpp): local and discovered writers and
readers, the topics that they are on, and `match`, which decides about a writer and a reader. The
maps of publications and of subscriptions are one map with the kind as an argument, and so are the
functions that are the same for both. Every call is one step, although `match` releases the lock
around its calls to the endpoints.

Left out are the messages that are written and the calls to the endpoints, the built-in topics,
the parameters of content filters, `remote_opendds_associations_` and the ignored topics. The
guids that `publication_counter_`, `subscription_counter_` and `topic_counter_` give are arguments
of the calls: after 2^24 of them a guid comes again. `associate` only puts a participant into the
queue of the task.
-/
namespace OpenDDS.Source.EndpointDiscovery

open DataSampleHeader QosMatching ParticipantDiscovery

/-- `entityId.entityKind & 4`. -/
def kindOf (guid : GUID) : Kind := if guid.entityKind &&& 4 ≠ 0 then .reader else .writer

def participantOf (guid : GUID) : GUID := participantGuid guid.guidPrefix

variable {δ : Type} [DecidableEq δ]

/-- `LocalPublication` and `LocalSubscription`. -/
structure LocalEndpoint (δ : Type) where
  topicId : GUID
  qos : EndpointQos δ
  matchedEndpoints : List GUID

/-- `DiscoveredPublication` and `DiscoveredSubscription`. -/
structure DiscoveredEndpoint (δ : Type) where
  topicName : String
  typeName : String
  qos : EndpointQos δ

/-- `TopicDetailsEx`. -/
structure TopicDetails where
  dataType : String
  repoId : GUID
  endpoints : List GUID

structure Sedp (δ : Type) where
  topics : List (String × TopicDetails)
  topicNames : List (GUID × String)
  locals : Kind → List (GUID × LocalEndpoint δ)
  discovered : Kind → List (GUID × DiscoveredEndpoint δ)
  ignoredGuids : List GUID
  associatedParticipants : List GUID
  deferMatchEndpoints : List GUID

/-- `map[key] = value`. -/
def assign {κ β : Type} [DecidableEq κ] (key : κ) (value : β) (map : List (κ × β)) : List (κ × β) :=
  (map.filter fun entry => entry.1 ≠ key) ++ [(key, value)]

/-- `map.erase(key)`. -/
def erase {κ β : Type} [DecidableEq κ] (key : κ) (map : List (κ × β)) : List (κ × β) :=
  map.filter fun entry => entry.1 ≠ key

/-- `topic_names_[topicId]`. -/
def Sedp.topicName (s : Sedp δ) (topicId : GUID) : String := (s.topicNames.lookup topicId).getD ""

def Sedp.setLocals (k : Kind) (map : List (GUID × LocalEndpoint δ)) (s : Sedp δ) : Sedp δ :=
  { s with locals := Function.update s.locals k map }

def Sedp.setDiscovered (k : Kind) (map : List (GUID × DiscoveredEndpoint δ)) (s : Sedp δ) : Sedp δ :=
  { s with discovered := Function.update s.discovered k map }

/-- An edit of `matched_endpoints_` of a local endpoint, if there is one. -/
def Sedp.editMatched (k : Kind) (guid : GUID) (f : List GUID → List GUID) (s : Sedp δ) : Sedp δ :=
  s.setLocals k <| (s.locals k).map fun entry =>
    if entry.1 = guid then (entry.1, { entry.2 with matchedEndpoints := f entry.2.matchedEndpoints })
    else entry

/-- `defer_match_endpoints_.insert(guid)`. -/
def Sedp.defer (guid : GUID) (s : Sedp δ) : Sedp δ :=
  { s with deferMatchEndpoints := s.deferMatchEndpoints.insert guid }

def Sedp.editEndpoints (name : String) (f : List GUID → List GUID) (s : Sedp δ) : Sedp δ :=
  { s with topics := s.topics.map fun entry =>
      if entry.1 = name then (entry.1, { entry.2 with endpoints := f entry.2.endpoints }) else entry }

section

-- `Spdp::get_default_locators`, with the types of the transports.
variable (wildMatch : List Char → List Char → Bool) (defaultLocators : GUID → Option (List String))

/-- An endpoint as `match` finds it. -/
structure Details (δ : Type) where
  isLocal : Bool
  qos : EndpointQos δ
  matchedEndpoints : List GUID

/-- The details of a writer or reader, which may be local or discovered. -/
def Sedp.details (k : Kind) (guid : GUID) (s : Sedp δ) : Option (Details δ) :=
  match (s.locals k).lookup guid with
  | some endpoint => some ⟨true, endpoint.qos, endpoint.matchedEndpoints⟩
  | none => ((s.discovered k).lookup guid).map fun endpoint => ⟨false, endpoint.qos, []⟩

/-- The locators of a discovered endpoint: if it has none, those of its participant are used. -/
def Sedp.locators (k : Kind) (guid : GUID) (d : Details δ) (s : Sedp δ) :
    Option (Details δ) × Sedp δ :=
  if d.isLocal ∨ d.qos.transports ≠ [] then (some d, s)
  else match defaultLocators (participantOf guid) with
    | none => (none, s.defer guid)
    | some [] => (some d, s)
    | some _ =>
      let qos := { d.qos with transports := ["rtps_udp"] }
      (some { d with qos }, s.setDiscovered k <| (s.discovered k).map fun entry =>
        if entry.1 = guid then (entry.1, { entry.2 with qos }) else entry)

/-- Whether a compatible endpoint waits for its participant. -/
def Sedp.deferred (guid : GUID) (d : Details δ) (s : Sedp δ) : Bool :=
  !d.isLocal && !s.associatedParticipants.contains (participantOf guid)

def Sedp.matchPair (writer reader : GUID) (s : Sedp δ) : Sedp δ :=
  match s.details .writer writer, s.details .reader reader with
  | some w, some r =>
    if ¬ w.isLocal ∧ ¬ r.isLocal then s
    else match s.locators defaultLocators .reader reader r with
      | (none, s) => s
      | (some r, s) =>
        match s.locators defaultLocators .writer writer w with
        | (none, s) => s
        | (some w, s) =>
          if compatibleQOS wildMatch w.qos r.qos then
            if s.deferred writer w then s.defer writer
            else if s.deferred reader r then s.defer reader
            else (s.editMatched .writer writer (List.insert reader)).editMatched .reader reader
              (List.insert writer)
          else if reader ∈ w.matchedEndpoints ∨ writer ∈ r.matchedEndpoints then
            (s.editMatched .writer writer (·.filter (· ≠ reader))).editMatched .reader reader
              (·.filter (· ≠ writer))
          else s
  | _, _ => s

def Sedp.removeAssoc (removeFrom removing : GUID) (s : Sedp δ) : Sedp δ :=
  s.editMatched (kindOf removeFrom) removeFrom (·.filter (· ≠ removing))

def opposite (repoId : GUID) (td : TopicDetails) : List GUID :=
  td.endpoints.filter fun guid => kindOf guid ≠ kindOf repoId

def Sedp.matchEndpoints (repoId : GUID) (td : TopicDetails) (s : Sedp δ) : Sedp δ :=
  (opposite repoId td).foldl (fun s guid =>
    match kindOf repoId with
    | .reader => s.matchPair wildMatch defaultLocators guid repoId
    | .writer => s.matchPair wildMatch defaultLocators repoId guid) s

/-- `match_endpoints` with `remove`. -/
def Sedp.unmatchEndpoints (repoId : GUID) (td : TopicDetails) (s : Sedp δ) : Sedp δ :=
  (opposite repoId td).foldl (fun s guid => s.removeAssoc guid repoId) s

/-- `match_endpoints` on a topic that is looked up. -/
def Sedp.matchOn (repoId : GUID) (name : String) (s : Sedp δ) : Sedp δ :=
  match s.topics.lookup name with
  | some td => s.matchEndpoints wildMatch defaultLocators repoId td
  | none => s

def Sedp.unmatchOn (repoId : GUID) (name : String) (s : Sedp δ) : Sedp δ :=
  match s.topics.lookup name with
  | some td => s.unmatchEndpoints repoId td
  | none => s

/-- `assert_topic`; `topicId` is what `make_topic_guid` gives if the topic is new. -/
def Sedp.assertTopic (topicId : GUID) (name dataType : String) (s : Sedp δ) : Sedp δ :=
  match s.topics.lookup name with
  | some td => { s with topicNames := assign td.repoId name s.topicNames }
  | none =>
    { s with
      topics := s.topics ++ [(name, ⟨dataType, topicId, []⟩)]
      topicNames := assign topicId name s.topicNames }

def Sedp.removeTopic (topicId : GUID) (s : Sedp δ) : Sedp δ :=
  let name := s.topicName topicId
  let topics := match s.topics.lookup name with
    | some td => if td.endpoints = [] then erase name s.topics else s.topics
    | none => s.topics
  { s with topics, topicNames := erase topicId s.topicNames }

/-- `add_publication` and `add_subscription`, for a topic of `topic_names_`. The object that
`local_publications_[rid]` gives keeps its `matched_endpoints_` if there was one. -/
def Sedp.addLocal (rid topicId : GUID) (qos : EndpointQos δ) (s : Sedp δ) : Sedp δ :=
  let k := kindOf rid
  let matchedEndpoints := ((s.locals k).lookup rid).elim [] LocalEndpoint.matchedEndpoints
  let s := s.setLocals k (assign rid ⟨topicId, qos, matchedEndpoints⟩ (s.locals k))
  let name := s.topicName topicId
  (s.editEndpoints name (List.insert rid)).matchOn wildMatch defaultLocators rid name

/-- `remove_publication` and `remove_subscription`. -/
def Sedp.removeLocal (rid : GUID) (s : Sedp δ) : Sedp δ :=
  let k := kindOf rid
  match (s.locals k).lookup rid with
  | none => s
  | some endpoint =>
    let name := s.topicName endpoint.topicId
    ((s.setLocals k (erase rid (s.locals k))).unmatchOn rid name).editEndpoints name
      (·.filter (· ≠ rid))

/-- `update_publication_qos` and `update_subscription_qos`; the transports stay. -/
def Sedp.updateLocalQos (rid : GUID) (qos : EndpointQos δ) (s : Sedp δ) : Sedp δ :=
  let k := kindOf rid
  match (s.locals k).lookup rid with
  | none => s
  | some endpoint =>
    let qos := { qos with transports := endpoint.qos.transports }
    (s.setLocals k ((s.locals k).map fun entry =>
      if entry.1 = rid then (entry.1, { entry.2 with qos }) else entry)).matchOn wildMatch
        defaultLocators rid (s.topicName endpoint.topicId)

/-- `qosChanged`: whether a changeable policy differs, and the policies with those of `src`. -/
def qosChanged (dest src : EndpointQos δ) : Bool × EndpointQos δ :=
  (dest.data.deadline != src.data.deadline || dest.data.latencyBudget != src.data.latencyBudget ||
      dest.data.other != src.data.other || dest.group.partition != src.group.partition ||
      dest.group.other != src.group.other,
    { data := { dest.data with
        deadline := src.data.deadline
        latencyBudget := src.data.latencyBudget
        other := src.data.other }
      group := { dest.group with partition := src.group.partition, other := src.group.other }
      transports := dest.transports })

/-- `data_received` of a sample, for a writer or a reader; `topicId` as in `assertTopic`. -/
def Sedp.dataReceived (k : Kind) (guid topicId : GUID) (data : DiscoveredEndpoint δ) (s : Sedp δ) :
    Sedp δ :=
  if s.ignoredGuids.contains guid ∨ s.ignoredGuids.contains (participantOf guid) then s
  else match (s.discovered k).lookup guid with
    | none =>
      let s := s.setDiscovered k (assign guid data (s.discovered k))
      match s.topics.lookup data.topicName with
      | none =>
        let s : Sedp δ := { s with
          topics := s.topics ++ [(data.topicName, ⟨data.typeName, topicId, [guid]⟩)]
          topicNames := assign topicId data.topicName s.topicNames }
        s.matchOn wildMatch defaultLocators guid data.topicName
      | some td =>
        if td.dataType ≠ data.typeName then s
        else
          let s := { s with topicNames := assign td.repoId data.topicName s.topicNames }
          (s.editEndpoints data.topicName (List.insert guid)).matchOn wildMatch defaultLocators guid
            data.topicName
    | some endpoint =>
      match qosChanged endpoint.qos data.qos with
      | (false, _) => s
      | (true, qos) =>
        (s.setDiscovered k ((s.discovered k).map fun entry =>
          if entry.1 = guid then (entry.1, { entry.2 with qos }) else entry)).matchOn wildMatch
            defaultLocators guid endpoint.topicName

def Sedp.dropDiscovered (k : Kind) (guid : GUID) (s : Sedp δ) : Sedp δ :=
  match (s.discovered k).lookup guid with
  | none => s
  | some endpoint =>
    let s := (s.editEndpoints endpoint.topicName (·.filter (· ≠ guid))).unmatchOn guid
      endpoint.topicName
    s.setDiscovered k (erase guid (s.discovered k))

/-- `data_received` of a message that unregisters or disposes of the endpoint. -/
def Sedp.disposeReceived (k : Kind) (guid : GUID) (s : Sedp δ) : Sedp δ :=
  if s.ignoredGuids.contains guid ∨ s.ignoredGuids.contains (participantOf guid) then s
  else s.dropDiscovered k guid

/-- `Task::svc_i` for one endpoint that was deferred. The topic is empty for an endpoint that is
not found. -/
def Sedp.matchDeferred (guid : GUID) (s : Sedp δ) : Sedp δ :=
  let topic := ((s.discovered (kindOf guid)).lookup guid).elim "" DiscoveredEndpoint.topicName
  let s := if topic ≠ "" then s.matchOn wildMatch defaultLocators guid topic else s
  { s with deferMatchEndpoints := s.deferMatchEndpoints.filter (· ≠ guid) }

/-- `Task::svc_i` for a participant. -/
def Sedp.svcI (guidPrefix : GuidPrefix) (s : Sedp δ) : Sedp δ :=
  let s := { s with
    associatedParticipants := s.associatedParticipants.insert (participantGuid guidPrefix) }
  (s.deferMatchEndpoints.filter fun guid => guid.guidPrefix = guidPrefix).foldl
    (fun s guid => s.matchDeferred wildMatch defaultLocators guid) s

def Sedp.removeEntitiesBelongingTo (k : Kind) (guidPrefix : GuidPrefix) (s : Sedp δ) : Sedp δ :=
  (((s.discovered k).map Prod.fst).filter fun guid => guid.guidPrefix = guidPrefix).foldl
    (fun s guid => s.dropDiscovered k guid) s

/-- `disassociate` of a participant that `Spdp` still has. -/
def Sedp.disassociate (guidPrefix : GuidPrefix) (s : Sedp δ) : Sedp δ :=
  let s := { s with
    associatedParticipants := s.associatedParticipants.filter (· ≠ participantGuid guidPrefix) }
  (s.removeEntitiesBelongingTo .writer guidPrefix).removeEntitiesBelongingTo .reader guidPrefix

def Sedp.ignore (guid : GUID) (s : Sedp δ) : Sedp δ :=
  let s := { s with ignoredGuids := s.ignoredGuids.insert guid }
  if ((s.discovered .writer).lookup guid).isSome then s.dropDiscovered .writer guid
  else s.dropDiscovered .reader guid

end

end OpenDDS.Source.EndpointDiscovery
