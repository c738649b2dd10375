import OpenDDS.Library.SetMap

/-!
# Reservations of a link

`OpenDDS::DCPS::DataLink` (dds/DCPS/transport/framework/DataLink.cpp) with its maps
`ReceiveListenerSetMap` and `RepoIdSetMap`: `make_reservation` for a publication and for a
subscription, and `release_reservations`. The maps are `std::map`s, whose `bind` does not fail;
the branches for that are left out, and so are the hooks of the RTPS link, the locks and the sets
of released locals that are kept for `notify_connection_deleted`.

Sets are edited through handles that the map shares, which is an edit of the set of their key.
-/
namespace OpenDDS.Source.DataLink

open Library.SetMap

variable {ι τ : Type} [DecidableEq ι]

/-- `ReceiveListenerSet`: the subscriptions with their listeners, which may be null. -/
abbrev ReceiveListenerSet (ι τ : Type) := List (ι × Option τ)

/-- `RepoIdSet`: a map from the ids to the key of the set. -/
abbrev RepoIdSet (ι : Type) := List (ι × ι)

abbrev ReceiveListenerSetMap (ι τ : Type) := List (ι × ReceiveListenerSet ι τ)

abbrev RepoIdSetMap (ι : Type) := List (ι × RepoIdSet ι)

def Map.bind {β : Type} (key : ι) (value : β) (map : List (ι × β)) : List (ι × β) :=
  match map.lookup key with
  | none => map ++ [(key, value)]
  | some _ => map

/-- `ReceiveListenerSet::insert`; a listener takes the place of a null one. -/
def ReceiveListenerSet.insert (subscriberId : ι) (listener : Option τ) (set : ReceiveListenerSet ι τ) :
    ReceiveListenerSet ι τ :=
  match listener, set.lookup subscriberId with
  | none, some (some _) => set
  | some l, some none =>
    set.map fun entry => if entry.1 = subscriberId then (subscriberId, some l) else entry
  | _, _ => Map.bind subscriberId listener set

/-- `ReceiveListenerSet::remove`. -/
def ReceiveListenerSet.remove (subscriberId : ι) (set : ReceiveListenerSet ι τ) :
    ReceiveListenerSet ι τ :=
  unbind subscriberId set

/-- `ReceiveListenerSet::exist`. -/
def ReceiveListenerSet.exist (set : ReceiveListenerSet ι τ) (localId : ι) : Bool :=
  (set.lookup localId).isSome

/-- `ReceiveListenerSetMap::insert`. -/
def ReceiveListenerSetMap.insert (publisherId subscriberId : ι) (listener : Option τ)
    (map : ReceiveListenerSetMap ι τ) : ReceiveListenerSetMap ι τ :=
  alter publisherId (ReceiveListenerSet.insert subscriberId listener) map

/-- `ReceiveListenerSetMap::remove`. -/
def ReceiveListenerSetMap.remove (publisherId subscriberId : ι) (map : ReceiveListenerSetMap ι τ) :
    ReceiveListenerSetMap ι τ :=
  discard publisherId subscriberId map

/-- `ReceiveListenerSetMap::release_subscriber`: whether the publisher has no subscriber left. -/
def ReceiveListenerSetMap.releaseSubscriber (publisherId subscriberId : ι)
    (map : ReceiveListenerSetMap ι τ) : Bool × ReceiveListenerSetMap ι τ :=
  match map.lookup publisherId with
  | none => (true, map)
  | some set =>
    ((set.remove subscriberId).length == 0, discard publisherId subscriberId map)

def removeSet {β : Type} (key : ι) (map : List (ι × β)) : List (ι × β) :=
  map.filter fun entry => entry.1 ≠ key

/-- `RepoIdSetMap::insert`. -/
def RepoIdSetMap.insert (key value : ι) (map : RepoIdSetMap ι) : RepoIdSetMap ι :=
  alter key (Map.bind value key) map

/-- `RepoIdSetMap::remove`; a set that becomes empty stays in the map. -/
def RepoIdSetMap.remove (key value : ι) (map : RepoIdSetMap ι) : RepoIdSetMap ι :=
  edit key (unbind value) map

/-- `RepoIdSetMap::release_publisher`: whether the subscriber has no publisher left. -/
def RepoIdSetMap.releasePublisher (subscriberId publisherId : ι) (map : RepoIdSetMap ι) :
    Bool × RepoIdSetMap ι :=
  match map.lookup subscriberId with
  | none => (true, map)
  | some set => ((unbind publisherId set).length == 0, discard subscriberId publisherId map)

/-- A link, with the listeners of the local publications and subscriptions. -/
structure Link (ι τ : Type) where
  pubMap : ReceiveListenerSetMap ι τ
  subMap : RepoIdSetMap ι
  sendListeners : List (ι × Option τ)
  recvListeners : List (ι × Option τ)

/-- `listeners[id] = listener`. -/
def assign (id : ι) (listener : Option τ) (listeners : List (ι × Option τ)) : List (ι × Option τ) :=
  (listeners.filter fun entry => entry.1 ≠ id) ++ [(id, listener)]

/-- `send_listener_for` and `recv_listener_for`, as a condition. -/
def listenerFor (listeners : List (ι × Option τ)) (id : ι) : Bool :=
  ((listeners.lookup id).bind fun listener => listener).isSome

/-- `make_reservation` for a local publication; `started` says that `start_i` returns 0. -/
def Link.makeReservation (remoteSubscriptionId localPublicationId : ι) (sendListener : Option τ)
    (started : Bool) (l : Link ι τ) : Bool × Link ι τ :=
  let firstPub := l.pubMap.length = 0
  let l := { l with
    pubMap := ReceiveListenerSetMap.insert localPublicationId remoteSubscriptionId none l.pubMap
    sendListeners := assign localPublicationId sendListener l.sendListeners
    subMap := RepoIdSetMap.insert remoteSubscriptionId localPublicationId l.subMap }
  if ¬ firstPub ∨ started then (true, l)
  else
    (false, { l with
      subMap := RepoIdSetMap.remove remoteSubscriptionId localPublicationId l.subMap
      pubMap := ReceiveListenerSetMap.remove localPublicationId remoteSubscriptionId l.pubMap })

def Link.makeReservationForSubscription (remotePublicationId localSubscriptionId : ι)
    (receiveListener : Option τ) (started : Bool) (l : Link ι τ) : Bool × Link ι τ :=
  let firstSub := l.subMap.length = 0
  let l := { l with
    subMap := RepoIdSetMap.insert localSubscriptionId remotePublicationId l.subMap
    recvListeners := assign localSubscriptionId receiveListener l.recvListeners
    pubMap := ReceiveListenerSetMap.insert remotePublicationId localSubscriptionId receiveListener
      l.pubMap }
  if ¬ firstSub ∨ started then (true, l)
  else
    (false, { l with
      pubMap := ReceiveListenerSetMap.remove remotePublicationId localSubscriptionId l.pubMap
      subMap := RepoIdSetMap.remove localSubscriptionId remotePublicationId l.subMap })

/-- `release_remote_subscriber`, with the publications of the subscriber. -/
def Link.releaseRemoteSubscriber (subscriberId publisherId : ι) (pubidSet : RepoIdSet ι)
    (l : Link ι τ) : Link ι τ :=
  let l := if publisherId ∈ pubidSet.map Prod.fst then
      { l with pubMap :=
          (ReceiveListenerSetMap.releaseSubscriber publisherId subscriberId l.pubMap).2 }
    else l
  { l with subMap := edit subscriberId (unbind publisherId) l.subMap }

/-- `release_remote_publisher`, with the subscriptions of the publisher. -/
def Link.releaseRemotePublisher (publisherId subscriberId : ι) (listenerSet : ReceiveListenerSet ι τ)
    (l : Link ι τ) : Link ι τ :=
  let l := if listenerSet.exist subscriberId then
      { l with subMap := (RepoIdSetMap.releasePublisher subscriberId publisherId l.subMap).2 }
    else l
  { l with pubMap := edit publisherId (ReceiveListenerSet.remove subscriberId) l.pubMap }

/-- The end of `release_reservations`: whether `release_datalink` is called. -/
def Link.released (l : Link ι τ) : Bool := l.pubMap.length + l.subMap.length == 0

/-- `release_reservations`, with whether `release_datalink` is called. -/
def Link.releaseReservations (remoteId localId : ι) (l : Link ι τ) : Bool × Link ι τ :=
  match l.pubMap.lookup remoteId with
  | some listenerSet =>
    let l := l.releaseRemotePublisher remoteId localId listenerSet
    let l := if (listenerSet.remove localId).length = 0 then
        { l with pubMap := removeSet remoteId l.pubMap } else l
    (l.released, l)
  | none =>
    match l.subMap.lookup remoteId with
    | some idSet =>
      let l := l.releaseRemoteSubscriber remoteId localId idSet
      let l := if (unbind localId idSet).length = 0 then
          { l with subMap := removeSet remoteId l.subMap } else l
      (l.released, l)
    | none =>
      -- The special case for links that are used for both sides.
      if listenerFor l.recvListeners localId ∨ listenerFor l.sendListeners localId then (false, l)
      else (l.released, l)

def create : Link ι τ := ⟨[], [], [], []⟩

/-- The calls of `TransportClient`s. -/
inductive Call (ι τ : Type) where
  | reserveForPublication (remoteSubscriptionId localPublicationId : ι) (sendListener : Option τ)
      (started : Bool)
  | reserveForSubscription (remotePublicationId localSubscriptionId : ι) (receiveListener : Option τ)
      (started : Bool)
  | release (remoteId localId : ι)

/-- A call, with its result: the return value, or whether `release_datalink` is called. -/
def Link.perform (l : Link ι τ) : Call ι τ → Bool × Link ι τ
  | .reserveForPublication sub pub listener started => l.makeReservation sub pub listener started
  | .reserveForSubscription pub sub listener started =>
    l.makeReservationForSubscription pub sub listener started
  | .release remoteId localId => l.releaseReservations remoteId localId

end OpenDDS.Source.DataLink
