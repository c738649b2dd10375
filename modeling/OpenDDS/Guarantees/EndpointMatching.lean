import OpenDDS.Library.Run
import OpenDDS.Source.EndpointCalls

/-!
# Compatible endpoints are matched

Every call keeps the pairs of all endpoints right, with two exceptions: a guid that is given twice
mixes up two endpoints or two topics, and the queued step of a participant takes the empty name of
a topic for an endpoint that is not found.
-/
namespace OpenDDS.Guarantees.EndpointMatching

open Library Source.EndpointDiscovery Source.EndpointInvariant Source.QosMatching
open Source.DataSampleHeader (GUID)
open Source.QosHelper (durationInfinite)
open Source.ParticipantDiscovery (GuidPrefix)

variable {δ : Type} {own : GuidPrefix} {typeOf : String → String} {s s' : Sedp δ} {k : Kind}
  {guid : GUID} {wildMatch : List Char → List Char → Bool}
  {defaultLocators : GUID → Option (List String)}

inductive Call (δ : Type) where
  | assertTopic (topicId : GUID) (name dataType : String)
  | removeTopic (topicId : GUID)
  | addLocal (rid topicId : GUID) (qos : EndpointQos δ)
  | removeLocal (rid : GUID)
  | updateLocalQos (rid : GUID) (qos : EndpointQos δ)
  | dataReceived (k : Kind) (guid topicId : GUID) (data : DiscoveredEndpoint δ)
  | disposeReceived (k : Kind) (guid : GUID)
  | svcI (guidPrefix : GuidPrefix)
  | disassociate (guidPrefix : GuidPrefix)
  | ignore (guid : GUID)

def call [DecidableEq δ] (wildMatch : List Char → List Char → Bool) (defaultLocators : GUID → Option (List String))
    (s : Sedp δ) : Call δ → Sedp δ
  | .assertTopic topicId name dataType => s.assertTopic topicId name dataType
  | .removeTopic topicId => s.removeTopic topicId
  | .addLocal rid topicId qos => s.addLocal wildMatch defaultLocators rid topicId qos
  | .removeLocal rid => s.removeLocal rid
  | .updateLocalQos rid qos => s.updateLocalQos wildMatch defaultLocators rid qos
  | .dataReceived k guid topicId data =>
    s.dataReceived wildMatch defaultLocators k guid topicId data
  | .disposeReceived k guid => s.disposeReceived k guid
  | .svcI guidPrefix => s.svcI wildMatch defaultLocators guidPrefix
  | .disassociate guidPrefix => s.disassociate guidPrefix
  | .ignore guid => s.ignore guid

/-- A topic name has one type, a topic in use is not removed, a discovered endpoint is of another
participant, has locators and changes only what may be changed, and an endpoint is ignored by its
own guid. -/
def Admissible (own : GuidPrefix) (typeOf : String → String) (s : Sedp δ) : Call δ → Prop
  | .assertTopic _ name dataType => dataType = typeOf name
  | .removeTopic topicId => (s.topicNames.lookup topicId).isSome ∧
    ∀ k guid e, (s.locals k).lookup guid = some e → e.topicId ≠ topicId
  | .addLocal rid topicId _ => rid.guidPrefix = own ∧ (s.topicNames.lookup topicId).isSome
  | .dataReceived k guid _ data => kindOf guid = k ∧ guid.guidPrefix ≠ own ∧
    data.qos.transports ≠ [] ∧ data.typeName = typeOf data.topicName ∧
    ∀ e, (s.discovered k).lookup guid = some e → Changeable e.qos data.qos
  | .ignore guid => guid.guidPrefix ≠ own ∧ guid ≠ participantOf guid
  | _ => True

/-- A guid that is given is not in use, and no endpoint waits in vain. -/
def Clean (wildMatch : List Char → List Char → Bool) (s : Sedp δ) : Call δ → Prop
  | .assertTopic topicId name _ => s.topics.lookup name = none → Fresh topicId s
  | .addLocal rid _ _ => (s.locals (kindOf rid)).lookup rid = none
  | .dataReceived _ _ topicId data => s.topics.lookup data.topicName = none → Fresh topicId s
  | .svcI guidPrefix => Named wildMatch guidPrefix s
  | _ => True

def start : Sedp δ := ⟨[], [], fun _ => [], fun _ => [], [], [], []⟩

/-- The QoS that the endpoint announced last. -/
def announced (k : Kind) (guid : GUID) (calls : List (Call δ)) : Option (EndpointQos δ) :=
  calls.foldl (fun last call =>
    match call with
    | .dataReceived k' g _ data => if k' = k ∧ g = guid then some data.qos else last
    | _ => last) none

/-- What `matched_endpoints_` of a local endpoint should hold. -/
def Wanted (wildMatch : List Char → List Char → Bool) (k : Kind) (e : LocalEndpoint δ) (R : GUID)
    (s : Sedp δ) : Prop :=
  (∃ r, (s.locals k.other).lookup R = some r ∧ s.topicName r.topicId = s.topicName e.topicId ∧
    compatible wildMatch k e.qos r.qos = true) ∨
  ∃ r, (s.discovered k.other).lookup R = some r ∧ r.topicName = s.topicName e.topicId ∧
    R ∉ s.ignoredGuids ∧ participantOf R ∈ s.associatedParticipants ∧
    compatible wildMatch k e.qos r.qos = true

structure Invariant (wildMatch : List Char → List Char → Bool) (own : GuidPrefix)
    (typeOf : String → String) (calls : List (Call δ)) (s : Sedp δ) : Prop where
  right : Right wildMatch own typeOf s
  discovered : ∀ k guid e, (s.discovered k).lookup guid = some e →
    guid ∉ s.ignoredGuids ∧ announced k guid calls = some e.qos
  ignored : ∀ guid ∈ s.ignoredGuids, guid ≠ participantOf guid

theorem start_invariant : Invariant wildMatch own typeOf [] (start : Sedp δ) := by
  have hseen : ∀ k guid, (start : Sedp δ).seen k guid = none := fun _ _ => rfl
  have hmatched : ∀ k L R, ¬ (start : Sedp δ).Matched k L R := by
    rintro k L R ⟨e, he, -⟩
    cases he
  have hjoined : ∀ k L R, ¬ Joined k L R (start : Sedp δ) := by
    rintro k L R ⟨d, -, hd, -⟩
    cases hd
  refine ⟨⟨⟨fun id n h => ?_, fun n td n' td' h => ?_, fun n td h => ?_⟩, ⟨fun k guid e h => ?_,
    fun k guid e h => ?_, fun n guid => ?_⟩, fun k L R _ _ => ?_, fun k L R h => ?_,
    fun k L R _ _ h => ?_⟩, fun k guid e h => ?_, fun guid h => ?_⟩
  · cases h
  · cases h
  · cases h
  · cases h
  · cases h
  · rw [hseen]
    simp [Sedp.endpointsOf, start]
  · exact iff_of_false (hmatched k L R) fun h => hjoined k L R h.2.1
  · exact absurd h (hmatched k L R)
  · exact absurd h (hjoined k L R)
  · cases h
  · exact absurd h List.not_mem_nil

variable {calls : List (Call δ)} {c : Call δ}

theorem announced_of_other (h : ∀ topicId data, c ≠ .dataReceived k guid topicId data) :
    announced k guid (calls ++ [c]) = announced k guid calls := by
  unfold announced
  rw [List.foldl_append, List.foldl_cons, List.foldl_nil]
  cases c with
  | dataReceived k' g topicId data =>
    refine if_neg ?_
    rintro ⟨rfl, rfl⟩
    exact h topicId data rfl
  | _ => rfl

theorem Invariant.quiet (h : Invariant wildMatch own typeOf calls s)
    (hc : ∀ k guid topicId data, c ≠ .dataReceived k guid topicId data)
    (hright : Right wildMatch own typeOf s')
    (hdiscovered : ∀ k g e, (s'.discovered k).lookup g = some e → (s.discovered k).lookup g = some e)
    (hignored : s'.ignoredGuids = s.ignoredGuids) :
    Invariant wildMatch own typeOf (calls ++ [c]) s' := by
  refine ⟨hright, fun k g e he => ?_, by rw [hignored]; exact h.ignored⟩
  rw [hignored, announced_of_other fun topicId data => hc k g topicId data]
  exact h.discovered k g e (hdiscovered k g e he)

theorem call_invariant [DecidableEq δ] (h : Invariant wildMatch own typeOf calls s)
    (hadmissible : Admissible own typeOf s c) (hclean : Clean wildMatch s c) :
    Invariant wildMatch own typeOf (calls ++ [c]) (call wildMatch defaultLocators s c) := by
  cases c with
  | assertTopic topicId name dataType =>
    obtain ⟨hdiscovered, hignored⟩ := assertTopic_discovered topicId name dataType s
    refine h.quiet (by simp) (assertTopic_right h.right hadmissible hclean) ?_ hignored
    intro k g e he
    rwa [call, hdiscovered] at he
  | removeTopic topicId =>
    obtain ⟨hsome, hunused⟩ := hadmissible
    obtain ⟨name, hname⟩ := Option.isSome_iff_exists.mp hsome
    exact h.quiet (by simp) (removeTopic_right h.right hname hunused) (fun _ _ _ he => he) rfl
  | addLocal rid topicId qos =>
    obtain ⟨hown, hsome⟩ := hadmissible
    obtain ⟨name, hname⟩ := Option.isSome_iff_exists.mp hsome
    obtain ⟨hright, hdiscovered, hignored⟩ := addLocal_right defaultLocators qos h.right hown hclean
      hname
    refine h.quiet (by simp) hright ?_ hignored
    intro k g e he
    rwa [call, hdiscovered] at he
  | removeLocal rid =>
    obtain ⟨hright, hdiscovered, hignored⟩ := removeLocal_right rid h.right
    refine h.quiet (by simp) hright ?_ hignored
    intro k g e he
    rwa [call, hdiscovered] at he
  | updateLocalQos rid qos =>
    obtain ⟨hright, hdiscovered, hignored⟩ := updateLocalQos_right rid defaultLocators qos h.right
    refine h.quiet (by simp) hright ?_ hignored
    intro k g e he
    rwa [call, hdiscovered] at he
  | dataReceived k guid topicId data =>
    obtain ⟨hkind, hremote, hcarried, htype, hupdate⟩ := hadmissible
    have hguid : guid ∈ s.ignoredGuids → (s.discovered k).lookup guid = none := by
      intro hmem
      cases he : (s.discovered k).lookup guid with
      | none => rfl
      | some e => exact absurd hmem (h.discovered k guid e he).1
    have hpart : participantOf guid ∉ s.ignoredGuids := fun hmem =>
      h.ignored (participantOf guid) hmem rfl
    obtain ⟨hright, hignored, hdiscovered⟩ := dataReceived_right defaultLocators h.right hguid hpart
      hkind hremote hcarried htype hupdate hclean
    refine ⟨hright, fun k' g e he => ?_, by rw [call, hignored]; exact h.ignored⟩
    rw [call, hignored]
    obtain ⟨rfl, rfl, hheeds, hqos⟩ | ⟨hother, he⟩ := hdiscovered k' g e he
    · refine ⟨hheeds, ?_⟩
      unfold announced
      rw [List.foldl_append, List.foldl_cons, List.foldl_nil, hqos]
      exact if_pos ⟨rfl, rfl⟩
    · have hquiet : ∀ id d, Call.dataReceived k guid topicId data ≠ .dataReceived k' g id d := by
        rintro id d heq
        cases heq
        exact hother ⟨rfl, rfl⟩
      rw [announced_of_other hquiet]
      exact h.discovered k' g e he
  | disposeReceived k guid =>
    by_cases hskip : s.ignoredGuids.contains guid = true ∨
        s.ignoredGuids.contains (participantOf guid) = true
    · have heq : call wildMatch defaultLocators s (.disposeReceived k guid) = s := if_pos hskip
      rw [heq]
      exact h.quiet (by simp) h.right (fun _ _ _ he => he) rfl
    · have heq : call wildMatch defaultLocators s (.disposeReceived k guid) =
          s.dropDiscovered k guid := if_neg hskip
      obtain ⟨hright, hlookup, hignored⟩ := dropDiscovered_near h.right k guid
      rw [heq]
      refine h.quiet (by simp) hright (fun k' g e he => ?_) hignored
      rw [hlookup] at he
      split_ifs at he
      exact he
  | svcI guidPrefix =>
    obtain ⟨hright, hdiscovered, hignored⟩ := svcI_right defaultLocators h.right hclean
    refine h.quiet (by simp) hright ?_ hignored
    intro k g e he
    rwa [call, hdiscovered] at he
  | disassociate guidPrefix =>
    obtain ⟨hright, hdiscovered, hignored⟩ := disassociate_right guidPrefix h.right
    exact h.quiet (by simp) hright hdiscovered hignored
  | ignore guid =>
    obtain ⟨hright, hdiscovered, hignored⟩ := ignore_right guid h.right
    refine ⟨hright, fun k g e he => ?_, fun g hg => ?_⟩
    · obtain ⟨hne, he⟩ := hdiscovered k g e he
      obtain ⟨hheeds, hannounced⟩ := h.discovered k g e he
      rw [call, hignored, announced_of_other (by simp)]
      exact ⟨fun hmem => (List.mem_insert_iff.mp hmem).elim hne hheeds, hannounced⟩
    · rw [call, hignored] at hg
      obtain rfl | hmem := List.mem_insert_iff.mp hg
      · exact hadmissible.2
      · exact h.ignored g hmem

def Step [DecidableEq δ] (wildMatch : List Char → List Char → Bool)
    (defaultLocators : GUID → Option (List String)) (own : GuidPrefix) (typeOf : String → String)
    (s : Sedp δ) (c : Call δ) (s' : Sedp δ) : Prop :=
  Admissible own typeOf s c ∧ s' = call wildMatch defaultLocators s c

/-- After every clean run `matched_endpoints_` of a local endpoint holds exactly the endpoints that
it should, and the QoS that is kept of a discovered endpoint is the one it announced last. -/
theorem matched_exactly [DecidableEq δ] {calls : List (Call δ)}
    (run : Run start (fun s c s' => Step wildMatch defaultLocators own typeOf s c s' ∧
      Clean wildMatch s c) calls s) :
    (∀ k L e, (s.locals k).lookup L = some e → ∀ R, R ∈ e.matchedEndpoints ↔
      Wanted wildMatch k e R s) ∧
    ∀ k guid e, (s.discovered k).lookup guid = some e → announced k guid calls = some e.qos := by
  have h : Invariant wildMatch own typeOf calls s := by
    refine run.history (Invariant wildMatch own typeOf) start_invariant ?_
    rintro calls s c after hbefore ⟨⟨hadmissible, rfl⟩, hclean⟩
    exact call_invariant hbefore hadmissible hclean
  refine ⟨fun k L e he R => ?_, fun k guid e he => (h.discovered k guid e he).2⟩
  have hseen := seen_of_local he
  have hmatched : R ∈ e.matchedEndpoints ↔ s.Matched k L R := by
    constructor
    · exact fun hmem => ⟨e, he, hmem⟩
    · rintro ⟨e', he', hmem⟩
      rw [he] at he'
      cases he'
      exact hmem
  rw [hmatched, h.right.exact k L R id id]
  constructor
  · rintro ⟨-, ⟨d, d', hd, hd', htopic⟩, d₁, d₁', hd₁, hd₁', hcompat, -, hready⟩
    rw [hd] at hd₁
    rw [hd'] at hd₁'
    rw [hseen] at hd
    cases hd₁
    cases hd₁'
    cases hd
    cases hlocal : d'.isLocal with
    | true =>
      obtain ⟨r, hr⟩ := Option.isSome_iff_exists.mp (isSome_local_iff.mpr ⟨d', hd', hlocal⟩)
      rw [seen_of_local hr] at hd'
      cases hd'
      exact .inl ⟨r, hr, htopic.symm, hcompat⟩
    | false =>
      obtain ⟨r, hr, rfl⟩ := discovered_of_seen hd' hlocal
      obtain hlocal' | hassociated := hready
      · cases hlocal'
      · exact .inr ⟨r, hr, htopic.symm, (h.discovered _ R r hr).1, hassociated, hcompat⟩
  · have hready : s.Ready L ⟨true, s.topicName e.topicId, e.qos⟩ := Or.inl rfl
    rintro (⟨r, hr, htopic, hcompat⟩ | ⟨r, hr, htopic, -, hassociated, hcompat⟩)
    · have hR := seen_of_local hr
      exact ⟨by rw [he]; rfl, ⟨_, _, hseen, hR, htopic.symm⟩, _, _, hseen, hR, hcompat, hready,
        Or.inl rfl⟩
    · have hR := h.right.endpoints.seen_discovered hr
      exact ⟨by rw [he]; rfl, ⟨_, _, hseen, hR, htopic.symm⟩, _, _, hseen, hR, hcompat, hready,
        Or.inr hassociated⟩

/-- A compatible endpoint is matched if its participant is associated, and waits until then. -/
theorem matched_or_deferred [DecidableEq δ] {calls : List (Call δ)}
    (run : Run start (fun s c s' => Step wildMatch defaultLocators own typeOf s c s' ∧
      Clean wildMatch s c) calls s) {L R : GUID} {e : LocalEndpoint δ} {r : DiscoveredEndpoint δ}
    (he : (s.locals k).lookup L = some e) (hr : (s.discovered k.other).lookup R = some r)
    (htopic : r.topicName = s.topicName e.topicId)
    (hcompat : compatible wildMatch k e.qos r.qos = true) :
    R ∈ if participantOf R ∈ s.associatedParticipants then e.matchedEndpoints
      else s.deferMatchEndpoints := by
  have h : Invariant wildMatch own typeOf calls s := by
    refine run.history (Invariant wildMatch own typeOf) start_invariant ?_
    rintro calls s c after hbefore ⟨⟨hadmissible, rfl⟩, hclean⟩
    exact call_invariant hbefore hadmissible hclean
  have hL := seen_of_local he
  have hR := h.right.endpoints.seen_discovered hr
  have hjoined : Joined k L R s := ⟨_, _, hL, hR, htopic.symm⟩
  split_ifs with hassociated
  · have hmatched : s.Matched k L R := (h.right.exact k L R id id).mpr
      ⟨by rw [he]; rfl, hjoined, _, _, hL, hR, hcompat, .inl rfl, .inr hassociated⟩
    obtain ⟨e', he', hmem⟩ := hmatched
    rw [he] at he'
    cases he'
    exact hmem
  · refine h.right.waits k L R id id hjoined ⟨_, _, hL, hR, rfl, hcompat, ?_⟩
    exact fun hready => hready.elim Bool.false_ne_true hassociated

section

def here : GuidPrefix := .replicate 12 0

def there : GuidPrefix := .replicate 12 1

def topicGuid : GUID := ⟨here, #v[0, 0, 0], 5⟩

def readerGuid : GUID := ⟨here, #v[0, 0, 0], 7⟩

def writerGuid : GUID := ⟨there, #v[0, 0, 0], 2⟩

def endpointQos : EndpointQos Unit where
  data := ⟨.reliable, .volatile, .automatic, durationInfinite, durationInfinite, ⟨0, 0⟩, .shared, ()⟩
  group := ⟨.instancePresentation, false, false, [], ()⟩
  transports := ["rtps_udp"]

/-- A local reader, a writer of a participant that is not yet associated, and the queued step. -/
def writerFirst (name : String) : List (Call Unit) :=
  [.assertTopic topicGuid name "Shape", .addLocal readerGuid topicGuid endpointQos,
    .dataReceived .writer writerGuid topicGuid ⟨name, "Shape", endpointQos⟩, .svcI there]

def reached (calls : List (Call Unit)) : Sedp Unit :=
  calls.foldl (call (fun _ _ => false) fun _ => none) start

theorem writerFirst_run {P : Sedp Unit → Call Unit → Prop} (name : String)
    (hknown : ((reached ((writerFirst name).take 1)).topicNames.lookup topicGuid).isSome)
    (hnew : ((reached ((writerFirst name).take 2)).discovered .writer).lookup writerGuid = none)
    (hP : ∀ n c, (writerFirst name)[n]? = some c → P (reached ((writerFirst name).take n)) c) :
    Run start (fun s c s' => Step (fun _ _ => false) (fun _ => none) here (fun _ => "Shape") s c s' ∧
      P s c) (writerFirst name) (reached (writerFirst name)) := by
  have hadmissible : ∀ n c, (writerFirst name)[n]? = some c →
      Admissible here (fun _ => "Shape") (reached ((writerFirst name).take n)) c := by
    intro n c hc
    match n with
    | 0 =>
      cases hc
      rfl
    | 1 =>
      cases hc
      exact ⟨rfl, hknown⟩
    | 2 =>
      cases hc
      refine ⟨by decide, by decide, List.cons_ne_nil _ _, rfl, fun e he => ?_⟩
      rw [hnew] at he
      cases he
    | 3 =>
      cases hc
      trivial
    | n + 4 => simp [writerFirst] at hc
  have htopic : Run start (fun s c s' => Step (fun _ _ => false) (fun _ => none) here
      (fun _ => "Shape") s c s' ∧ P s c) _ _ :=
    Run.start.next ⟨⟨hadmissible 0 _ rfl, rfl⟩, hP 0 _ rfl⟩
  exact ((htopic.next ⟨⟨hadmissible 1 _ rfl, rfl⟩, hP 1 _ rfl⟩).next
    ⟨⟨hadmissible 2 _ rfl, rfl⟩, hP 2 _ rfl⟩).next ⟨⟨hadmissible 3 _ rfl, rfl⟩, hP 3 _ rfl⟩

theorem square_matched :
    (∀ k L e, ((reached (writerFirst "Square")).locals k).lookup L = some e → ∀ R,
      R ∈ e.matchedEndpoints ↔ Wanted (fun _ _ => false) k e R (reached (writerFirst "Square"))) ∧
    (((reached (writerFirst "Square")).locals .reader).lookup readerGuid).map
      LocalEndpoint.matchedEndpoints = some [writerGuid] := by
  have hclean : ∀ n c, (writerFirst "Square")[n]? = some c →
      Clean (fun _ _ => false) (reached ((writerFirst "Square").take n)) c := by
    intro n c hc
    match n with
    | 0 =>
      cases hc
      intro _ n td htd
      cases htd
    | 1 =>
      cases hc
      exact rfl
    | 2 =>
      cases hc
      intro hnone
      cases hnone
    | 3 =>
      cases hc
      intro guid hmem hbegins e he hempty
      have hdefers : (reached ((writerFirst "Square").take 3)).deferMatchEndpoints =
          [writerGuid] := by decide
      rw [hdefers, List.mem_singleton] at hmem
      subst hmem
      have hname : (((reached ((writerFirst "Square").take 3)).discovered (kindOf writerGuid)).lookup
          writerGuid).map DiscoveredEndpoint.topicName = some "Square" := by decide
      rw [he, Option.map_some, hempty] at hname
      exact absurd hname (by decide)
    | n + 4 => simp [writerFirst] at hc
  have run := writerFirst_run "Square" (by decide) rfl hclean
  exact ⟨(matched_exactly run).1, by decide⟩

theorem square_deferred :
    writerGuid ∈ (reached ((writerFirst "Square").take 3)).deferMatchEndpoints := by
  have htopic : Admissible here (fun _ => "Shape") start
      (.assertTopic topicGuid "Square" "Shape" : Call Unit) := rfl
  have hreader : Admissible here (fun _ => "Shape") (reached ((writerFirst "Square").take 1))
      (.addLocal readerGuid topicGuid endpointQos) := ⟨rfl, by decide⟩
  have hwriter : Admissible here (fun _ => "Shape") (reached ((writerFirst "Square").take 2))
      (.dataReceived .writer writerGuid topicGuid ⟨"Square", "Shape", endpointQos⟩) :=
    ⟨by decide, by decide, List.cons_ne_nil _ _, rfl, fun _ he => by cases he⟩
  have run : Run start (fun s c s' => Step (fun _ _ => false) (fun _ => none) here
      (fun _ => "Shape") s c s' ∧ Clean (fun _ _ => false) s c) _
      (reached ((writerFirst "Square").take 3)) :=
    ((Run.start.next ⟨⟨htopic, rfl⟩, fun _ _ _ htd => by cases htd⟩).next
      ⟨⟨hreader, rfl⟩, rfl⟩).next ⟨⟨hwriter, rfl⟩, fun hnone => by cases hnone⟩
  have hin := matched_or_deferred (k := .reader) (L := readerGuid) (R := writerGuid)
    (e := ⟨topicGuid, endpointQos, []⟩) (r := ⟨"Square", "Shape", endpointQos⟩) run rfl rfl rfl
    (by decide)
  rwa [if_neg (by decide)] at hin

/-- The writer on the topic with the empty name is taken for one that is not found. -/
theorem nameless_unmatched : ∃ calls, ∃ s : Sedp Unit,
    Run start (Step (fun _ _ => false) (fun _ => none) here fun _ => "Shape") calls s ∧
    ¬ ∀ k L e, (s.locals k).lookup L = some e → ∀ R, R ∈ e.matchedEndpoints ↔
      Wanted (fun _ _ => false) k e R s := by
  have run := writerFirst_run (P := fun _ _ => True) "" (by decide) rfl fun _ _ _ => trivial
  refine ⟨writerFirst "", _, run.imp fun _ _ _ h => h.1, fun hexactly => ?_⟩
  have hreader : ((reached (writerFirst "")).locals .reader).lookup readerGuid =
      some ⟨topicGuid, endpointQos, []⟩ := rfl
  have hwanted : Wanted (fun _ _ => false) .reader ⟨topicGuid, endpointQos, []⟩ writerGuid
      (reached (writerFirst "")) :=
    Or.inr ⟨⟨"", "Shape", endpointQos⟩, rfl, by decide, by decide, by decide, by decide⟩
  exact absurd ((hexactly .reader readerGuid _ hreader writerGuid).mpr hwanted) List.not_mem_nil

end

end OpenDDS.Guarantees.EndpointMatching
