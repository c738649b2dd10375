import OpenDDS.Source.DataLink

/-!
# Sending through the links of a client

`TransportClient::send` (dds/DCPS/transport/framework/TransportClient.cpp) with
`DataLinkSet::send`, `send_start`, `send_stop` and `select_links` (DataLinkSet.{inl,cpp}) and
`DataLink::target_intersection`; on the other side `DataLink::data_received_i` (DataLink.cpp) with
`ReceiveListenerSet::remove_all` and `data_received`. What the client does to the links and to the
send listener is the list of its actions, in order.
-/
namespace OpenDDS.Source.TransportClient

open Library.SetMap DataLink

variable {ι τ : Type} [DecidableEq ι]

/-- A `DataSampleElement`; `address` tells the elements of a list from each other. -/
structure Element (ι : Type) where
  address : Nat
  pubId : ι
  subIds : List ι
  /-- `CONTENT_FILTER_FLAG` of its header. -/
  contentFilter : Bool
  /-- `filter_out_`, which may be null. -/
  filterOut : Option (List ι)
  /-- `filter_per_link_`, with sequences that may be null. -/
  filterPerLink : List (Nat × Option (List ι))

/-- `DataLinkSet`: a map from the ids of the links. -/
abbrev DataLinkSet (ι τ : Type) := List (Nat × Link ι τ)

inductive Action (ι : Type) where
  | dataDelivered (address : Nat)
  | sendStart (link : Nat)
  /-- An element is given to a link, with content-filter entries if the header is customized. -/
  | send (link address : Nat) (entries : Option (List ι))
  | sendStop (link : Nat)
  deriving DecidableEq

/-- `DataLink::is_target`. -/
def isTarget (l : Link ι τ) (subId : ι) : Bool := (l.subMap.lookup subId).isSome

/-- `DataLinkSet::select_links`. -/
def DataLinkSet.selectLinks (remoteIds : List ι) (links : DataLinkSet ι τ) : DataLinkSet ι τ :=
  links.filter fun entry => remoteIds.any (isTarget entry.2)

/-- `DataLink::target_intersection`, null when it is empty, and `n_subs`, if it is assigned. -/
def targetIntersection (pubId : ι) (ids : List ι) (l : Link ι τ) : Option (List ι) × Option Nat :=
  match l.pubMap.lookup pubId with
  | none => (none, none)
  | some set =>
    let found := ids.filter fun id => ReceiveListenerSet.exist set id
    (if found = [] then none else some found, some set.length)

/-- Whether the sample goes to the link; `n_subs` is looked at only if it was assigned. -/
def wanted : Option (List ι) × Option Nat → Bool
  | (none, _) => true
  | (some found, nSubs) => some found.length != nSubs

/-- `filter_per_link_[id] = guids`. -/
def assignFilter (id : Nat) (guids : Option (List ι)) (map : List (Nat × Option (List ι))) :
    List (Nat × Option (List ι)) :=
  (map.filter fun entry => entry.1 ≠ id) ++ [(id, guids)]

/-- The links that the filter leaves, and what it stores for them in the element. -/
def applyFilter (filterOut : List ι) (e : Element ι) : DataLinkSet ι τ → DataLinkSet ι τ × Element ι
  | [] => ([], e)
  | (id, l) :: links =>
    let ti := targetIntersection e.pubId filterOut l
    if wanted ti then
      let (subset, e) :=
        applyFilter filterOut { e with filterPerLink := assignFilter id ti.1 e.filterPerLink } links
      ((id, l) :: subset, e)
    else applyFilter filterOut e links

/-- `DataLinkSet::send`. -/
def DataLinkSet.send (e : Element ι) (links : DataLinkSet ι τ) : List (Action ι) :=
  links.map fun entry =>
    .send entry.1 e.address <|
      if e.contentFilter then some (((e.filterPerLink.lookup entry.1).bind fun guids => guids).getD [])
      else none

/-- `DataLinkSet::send_start`: the links that were not in the set hear of it. -/
def sendStart (links : DataLinkSet ι τ) (sendLinks : List Nat) : List (Action ι) × List Nat :=
  let fresh := (links.map Prod.fst).filter fun id => id ∉ sendLinks
  (fresh.map .sendStart, sendLinks ++ fresh)

/-- `DataLinkSet::send_stop`. -/
def sendStop (sendLinks : List Nat) : List (Action ι) := sendLinks.map .sendStop

/-- The links are told about the element and get it. -/
def startAndSend (links : DataLinkSet ι τ) (e : Element ι) (sendLinks : List Nat) :
    List (Action ι) × List Nat :=
  let (started, sendLinks) := sendStart links sendLinks
  (started ++ DataLinkSet.send e links, sendLinks)

/-- One turn of the loop of `send`, with `send_links_`. -/
def sendElement (links : DataLinkSet ι τ) (e : Element ι) (sendLinks : List Nat) :
    List (Action ι) × List Nat :=
  let pubLinks := if e.subIds.length > 0 then DataLinkSet.selectLinks e.subIds links else links
  if pubLinks = [] then ([.dataDelivered e.address], sendLinks)
  else match e.filterOut with
    | none => startAndSend pubLinks e sendLinks
    | some filterOut =>
      match applyFilter filterOut e pubLinks with
      | ([], _) => ([.dataDelivered e.address], sendLinks)
      | (subset, e) => startAndSend subset e sendLinks

def sendElements (links : DataLinkSet ι τ) : List (Element ι) → List Nat → List (Action ι) × List Nat
  | [], sendLinks => ([], sendLinks)
  | e :: samples, sendLinks =>
    let (actions, sendLinks) := sendElement links e sendLinks
    let (later, sendLinks) := sendElements links samples sendLinks
    (actions ++ later, sendLinks)

/-- `TransportClient::send`; `send_links_` is empty between calls. -/
def send (links : DataLinkSet ι τ) (samples : List (Element ι)) : List (Action ι) :=
  let (actions, sendLinks) := sendElements links samples []
  actions ++ sendStop sendLinks

/-- The part of a sample's header that `data_received_i` looks at. -/
structure ReceivedHeader (ι : Type) where
  publicationId : ι
  contentFilter : Bool
  contentFilterEntries : List ι

/-- `ReceiveListenerSet::remove_all`. -/
def removeAll (ids : List ι) (set : ReceiveListenerSet ι τ) : ReceiveListenerSet ι τ :=
  ids.foldl (fun set id => unbind id set) set

/-- A listener that is called: the one of a reader, or the default listener of the link. -/
inductive Heard (ι τ : Type) where
  | reader (id : ι) (listener : τ)
  | default (listener : τ)

/-- `ReceiveListenerSet::data_received`. -/
def setDataReceived (exclude : List ι) (set : ReceiveListenerSet ι τ) : List (Heard ι τ) :=
  set.filterMap fun entry =>
    match entry.2 with
    | none => none
    | some listener => if exclude.contains entry.1 then none else some (.reader entry.1 listener)

/-- `DataLink::data_received_i`; no `readerId` is `GUID_UNKNOWN`. -/
def dataReceivedI (header : ReceivedHeader ι) (readerId : Option ι) (exclude : List ι)
    (defaultListener : Option τ) (l : Link ι τ) : List (Heard ι τ) :=
  match l.pubMap.lookup header.publicationId with
  | none => (defaultListener.map Heard.default).toList
  | some set =>
    match readerId with
    | some id =>
      match set.lookup id with
      | some (some listener) => [.reader id listener]
      | _ => []
    | none =>
      if header.contentFilter ∧ header.contentFilterEntries.length ≠ 0 then
        setDataReceived exclude (removeAll header.contentFilterEntries set)
      else setDataReceived exclude set

end OpenDDS.Source.TransportClient
