import OpenDDS.Source.DataSampleHeader

/-!
# Participant discovery

`OpenDDS::RTPS::Spdp` (dds/DCPS/RTPS/Spdp.cpp) and the part of `Sedp` that it calls
(dds/DCPS/RTPS/Sedp.cpp): the table of discovered participants, the participants that are
ignored, those that are associated, and the queue of `Sedp::Task`.

The parameter list of a message is read by `from_param_list` (ParameterListConverter.cpp); of
`SPDPdiscoveredParticipantData` only the fields are kept that are looked at here. The built-in
topics, the announcement sent in answer and the associations of the four built-in endpoints are
left out: they do not decide who is in the table. The lock is released around calls to the
built-in topics and to the transport; every call is one step all the same.
-/
namespace OpenDDS.Source.ParticipantDiscovery

open DataSampleHeader

abbrev GuidPrefix := Vector (BitVec 8) 12

/-- The guid of a participant: its prefix with `ENTITYID_PARTICIPANT`. -/
def participantGuid (guidPrefix : GuidPrefix) : GUID := ⟨guidPrefix, #v[0, 0, 1], 0xc1⟩

/-- `Parameter`, with the values that are looked at here. -/
inductive Parameter where
  | userData (value : List (BitVec 8))
  | participantGuid (guid : GUID)
  /-- `PID_PARTICIPANT_BUILTIN_ENDPOINTS` and `PID_BUILTIN_ENDPOINT_SET`. -/
  | participantBuiltinEndpoints (endpoints : BitVec 32)
  | participantLeaseDuration (seconds : Int)
  | statusInfo (value : Vector (BitVec 8) 4)
  /-- A parameter that `from_param_list` stores in a field of its own. -/
  | elsewhere
  | other (pid : BitVec 16)

def pidmaskIncompatible : BitVec 16 := 0x4000

/-- `SPDPdiscoveredParticipantData`. -/
structure ParticipantData where
  guidPrefix : GuidPrefix
  userData : List (BitVec 8)
  availableBuiltinEndpoints : BitVec 32
  leaseSeconds : Int

def ParticipantData.guid (pdata : ParticipantData) : GUID := participantGuid pdata.guidPrefix

/-- The parameter of one turn of the loop of `from_param_list`. -/
def readParameter (pdata : ParticipantData) : Parameter → Option ParticipantData
  | .userData value => some { pdata with userData := value }
  | .participantGuid guid => some { pdata with guidPrefix := guid.guidPrefix }
  | .participantBuiltinEndpoints endpoints => some { pdata with availableBuiltinEndpoints := endpoints }
  | .participantLeaseDuration seconds => some { pdata with leaseSeconds := seconds }
  | .statusInfo _ => some pdata
  | .elsewhere => some pdata
  | .other pid => if pid &&& pidmaskIncompatible ≠ 0 then none else some pdata

/-- `from_param_list`; the prefix is not among the defaults, `unset` is what stands in the object. -/
def fromParamList (unset : GuidPrefix) (plist : List Parameter) : Option ParticipantData :=
  plist.foldlM readParameter ⟨unset, [], 0, 100⟩

def statusInfo : List Parameter → Option (Vector (BitVec 8) 4)
  | [] => none
  | .statusInfo value :: _ => some value
  | _ :: rest => statusInfo rest

def disposed (inlineQos : List Parameter) : Bool :=
  match statusInfo inlineQos with
  | some value => value[3] &&& 1 != 0
  | none => false

/-- A message of the participant writer, with the prefix that `pdata` has before it is read. -/
structure Message where
  inlineQos : List Parameter
  plist : List Parameter
  unset : GuidPrefix

def Message.pdata (m : Message) : Option ParticipantData := fromParamList m.unset m.plist

structure Sedp where
  ignoredGuids : List GUID
  associatedParticipants : List GUID
  /-- The participants that `associate` queued for the task. -/
  queue : List ParticipantData

def Sedp.ignoring (sedp : Sedp) (guid : GUID) : Bool := sedp.ignoredGuids.contains guid

def Sedp.associate (pdata : ParticipantData) (sedp : Sedp) : Sedp :=
  { sedp with queue := sedp.queue ++ [pdata] }

/-- `Task::svc_i` for the participant that is first in the queue. -/
def Sedp.svcI (sedp : Sedp) : Sedp :=
  match sedp.queue with
  | [] => sedp
  | pdata :: queue =>
    { sedp with
      queue
      associatedParticipants := sedp.associatedParticipants.insert pdata.guid }

structure DiscoveredParticipant where
  pdata : ParticipantData
  lastSeen : Int

structure Spdp where
  participants : List (GUID × DiscoveredParticipant)
  sedp : Sedp

def Spdp.hasDiscoveredParticipant (s : Spdp) (guid : GUID) : Bool :=
  (s.participants.lookup guid).isSome

/-- `Sedp::disassociate`, with its result. -/
def Spdp.disassociate (pdata : ParticipantData) (s : Spdp) : Bool × Spdp :=
  (s.hasDiscoveredParticipant pdata.guid,
    { s with sedp := { s.sedp with
        associatedParticipants := s.sedp.associatedParticipants.filter (· ≠ pdata.guid) } })

def Spdp.removeDiscoveredParticipant (guid : GUID) (part : DiscoveredParticipant) (s : Spdp) : Spdp :=
  match s.disassociate part.pdata with
  | (true, s) => { s with participants := s.participants.filter fun entry => entry.1 ≠ guid }
  | (false, s) => s

/-- `data_received` at `time`. -/
def Spdp.dataReceived (time : Int) (m : Message) (s : Spdp) : Spdp :=
  match m.pdata with
  | none => s
  | some pdata =>
    let guid := pdata.guid
    if s.sedp.ignoring guid then s
    else match s.participants.lookup guid with
      -- The kind of the message is not looked at.
      | none =>
        { participants := s.participants ++ [(guid, ⟨pdata, time⟩)]
          sedp := s.sedp.associate pdata }
      | some part =>
        if m.inlineQos.length ≠ 0 ∧ disposed m.inlineQos then s.removeDiscoveredParticipant guid part
        else
          { s with participants := s.participants.map fun entry =>
              if entry.1 = guid then (guid, ⟨pdata, time⟩) else entry }

/-- An `ACE_Time_Value` is counted in microseconds. -/
def microseconds (seconds : Int) : Int := seconds * 1000000

/-- The test of `remove_expired_participants` at `now`. -/
def DiscoveredParticipant.expired (now : Int) (part : DiscoveredParticipant) : Prop :=
  part.lastSeen < now - microseconds part.pdata.leaseSeconds

instance (now : Int) (part : DiscoveredParticipant) : Decidable (part.expired now) :=
  inferInstanceAs (Decidable (_ < _))

/-- One turn of the loop of `remove_expired_participants`. -/
def Spdp.removeExpired (clock : GUID → Int) (s : Spdp) (guid : GUID) : Spdp :=
  match s.participants.lookup guid with
  | none => s
  | some part =>
    if part.expired (clock guid) then s.removeDiscoveredParticipant guid part else s

/-- `remove_expired_participants`; the clock is read again for every participant. -/
def Spdp.removeExpiredParticipants (clock : GUID → Int) (s : Spdp) : Spdp :=
  (s.participants.map Prod.fst).foldl (Spdp.removeExpired clock) s

inductive Event where
  | received (time : Int) (m : Message)
  | tick (clock : GUID → Int)
  | svcI

def Spdp.step (s : Spdp) : Event → Spdp
  | .received time m => s.dataReceived time m
  | .tick clock => s.removeExpiredParticipants clock
  | .svcI => { s with sedp := s.sedp.svcI }

/-- A participant that ignores these, itself among them. -/
def create (ignored : List GUID) : Spdp := ⟨[], ⟨ignored, [], []⟩⟩

end OpenDDS.Source.ParticipantDiscovery
