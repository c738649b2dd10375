import Mathlib.Algebra.Ring.Nat
import OpenDDS.Source.SendStrategyCalls

/-!
What the sending of packets leaves alone, and where the elements go: from `elems_` to the
delayed notifications or straight to a notification.
-/
namespace OpenDDS.Source.SendStrategy

open Library.Folds QueueElement

variable {ε : Type} {cfg : Config} {s s' s'' : Strategy ε}

structure SameSetting (s s' : Strategy ε) : Prop where
  mode : s'.mode = s.mode
  before : s'.modeBeforeSuspend = s.modeBeforeSuspend
  queue : s'.queue = s.queue
  startCounter : s'.startCounter = s.startCounter
  graceful : s'.gracefulDisconnecting = s.gracefulDisconnecting
  released : s'.linkReleased = s.linkReleased
  shutdown : s'.transportShutdown = s.transportShutdown

theorem SameSetting.refl (s : Strategy ε) : SameSetting s s := ⟨rfl, rfl, rfl, rfl, rfl, rfl, rfl⟩

theorem SameSetting.trans (h : SameSetting s s') (h' : SameSetting s' s'') : SameSetting s s'' :=
  ⟨h'.mode.trans h.mode, h'.before.trans h.before, h'.queue.trans h.queue,
    h'.startCounter.trans h.startCounter, h'.graceful.trans h.graceful,
    h'.released.trans h.released, h'.shutdown.trans h.shutdown⟩

structure Stands (s : Strategy ε) : Prop where
  released : s.linkReleased = false
  running : s.transportShutdown = false
  mode : s.mode ≠ .notSet
  before : s.mode = .suspend → s.modeBeforeSuspend ≠ .notSet ∧ s.modeBeforeSuspend ≠ .suspend

theorem Stands.same (h : Stands s) (hsame : SameSetting s s') : Stands s' where
  released := hsame.released.trans h.released
  running := hsame.shutdown.trans h.running
  mode := hsame.mode ▸ h.mode
  before := by
    rw [hsame.mode, hsame.before]
    exact h.before

theorem Stands.directly (h : Stands s) (hmode : ¬ (s.mode = .queue ∨ s.mode = .suspend)) :
    s.mode = .direct ∨ s.mode = .terminated := by
  have hset := h.mode
  cases hmode' : s.mode <;> simp_all

def SendMode.fate (mode : SendMode) : Fate := if mode = .terminated then .dropped else .delivered

theorem notify_eq (mode : SendMode) (e : ε) (s : Strategy ε) :
    s.notify mode e = { s with notified := s.notified ++ [(e, mode.fate)] } := by
  unfold Strategy.notify SendMode.fate
  split_ifs <;> rfl

theorem foldl_notify (es : List ε) (s : Strategy ε) :
    es.foldl (fun s e => s.notify s.mode e) s =
      { s with notified := s.notified ++ es.map fun e => (e, s.mode.fate) } := by
  induction es generalizing s with
  | nil => simp
  | cons e es ih =>
    rw [List.foldl_cons, ih, notify_eq]
    simp

theorem foldl_dataDropped (es : List ε) (s : Strategy ε) :
    es.foldl (fun s e => s.dataDropped e) s =
      { s with notified := s.notified ++ es.map fun e => (e, .dropped) } := by
  induction es generalizing s with
  | nil => simp
  | cons e es ih =>
    rw [List.foldl_cons, ih]
    simp [Strategy.dataDropped]

private theorem fst_fates (ds : List (ε × SendMode)) :
    (ds.map fun d => (d.1, d.2.fate)).map Prod.fst = ds.map Prod.fst := by
  rw [List.map_map]
  rfl

variable [QueueElement ε]

theorem sendDelayedNotifications_eq (select : ε → Bool) (hrunning : s.transportShutdown = false) :
    s.sendDelayedNotifications select =
      { s with
        delayed := s.delayed.filter fun d => !select d.1
        notified := s.notified ++
          (s.delayed.filter fun d => select d.1).map fun d => (d.1, d.2.fate) } := by
  have hfold : ∀ (ds : List (ε × SendMode)) (s : Strategy ε), s.transportShutdown = false →
      ds.foldl (fun s d =>
        if !s.transportShutdown || ownedByTransport d.1 then s.notify d.2 d.1 else s) s =
      { s with notified := s.notified ++ ds.map fun d => (d.1, d.2.fate) } := by
    intro ds
    induction ds with
    | nil => simp
    | cons d ds ih =>
      intro s hs
      rw [List.foldl_cons, if_pos (by simp [hs]), notify_eq, ih]
      · simp
      · exact hs
  exact hfold _ _ hrunning

theorem sendDelayedNotifications_setting (select : ε → Bool)
    (hrunning : s.transportShutdown = false) :
    SameSetting s (s.sendDelayedNotifications select) := by
  rw [sendDelayedNotifications_eq select hrunning]
  exact ⟨rfl, rfl, rfl, rfl, rfl, rfl, rfl⟩

theorem preparePacket_setting (s : Strategy ε) : SameSetting s (s.preparePacket cfg) :=
  ⟨rfl, rfl, rfl, rfl, rfl, rfl, rfl⟩

theorem append_setting (e : ε) (s : Strategy ε) : SameSetting s (s.append e) :=
  ⟨rfl, rfl, rfl, rfl, rfl, rfl, rfl⟩

omit [QueueElement ε] in
theorem hand_setting (s : Strategy ε) : SameSetting s (s.hand cfg) :=
  ⟨rfl, rfl, rfl, rfl, rfl, rfl, rfl⟩

omit [QueueElement ε] in
theorem accept_setting (n : Nat) (s : Strategy ε) : SameSetting s (s.accept cfg n) :=
  ⟨rfl, rfl, rfl, rfl, rfl, rfl, rfl⟩

/-- The strategy with what the loop of `adjust_packet_after_send` leaves. -/
def Strategy.adjusted (chain : List MessageBlock) (p : Peeling ε) (s : Strategy ε) : Strategy ε :=
  { s with
    pktChain := chain
    elems := p.elems
    headerComplete := p.headerComplete
    delayed := p.delayed
    header := { s.header with length := s.header.length - BitVec.ofInt 32 p.nonHeaderBytes }
    notified := s.notified ++ p.elemsToNotify.map fun e => (e, s.mode.fate) }

variable {n : Int} {e : ε}

theorem adjustPacketAfterSend_eq {rest : List ε} {chain : List MessageBlock} {p : Peeling ε}
    (helems : s.elems = e :: rest) (hpeel : peel cfg s.mode s.pktChain
      ⟨s.elems, s.headerComplete, n, 0, tailBase e, s.delayed, []⟩ = .ok (chain, p)) :
    s.adjustPacketAfterSend cfg n =
      .ok (decide ((s.adjusted chain p).header.length ≠ 0), s.adjusted chain p) := by
  unfold Strategy.adjustPacketAfterSend
  split
  · next hnil => simp [hnil] at helems
  · next e' rest' helems' =>
    obtain ⟨rfl, rfl⟩ := List.cons.inj (helems'.symm.trans helems)
    simp only [hpeel, foldl_notify]
    rfl

variable {more : Bool}

theorem adjustPacketAfterSend_cases (h : s.adjustPacketAfterSend cfg n = .ok (more, s')) :
    (s.elems = [] ∧ s' = s) ∨
      ∃ e rest chain p, s.elems = e :: rest ∧
        peel cfg s.mode s.pktChain
          ⟨s.elems, s.headerComplete, n, 0, tailBase e, s.delayed, []⟩ = .ok (chain, p) ∧
        s' = s.adjusted chain p := by
  cases helems : s.elems with
  | nil =>
    unfold Strategy.adjustPacketAfterSend at h
    simp only [helems] at h
    cases h
    exact .inl ⟨rfl, rfl⟩
  | cons e rest =>
    cases hpeel : peel cfg s.mode s.pktChain
        ⟨s.elems, s.headerComplete, n, 0, tailBase e, s.delayed, []⟩ with
    | error fault =>
      unfold Strategy.adjustPacketAfterSend at h
      simp only [helems] at h hpeel
      rw [hpeel] at h
      cases h
    | ok result =>
      obtain ⟨chain, p⟩ := result
      rw [adjustPacketAfterSend_eq helems hpeel] at h
      cases h
      exact .inr ⟨e, rest, chain, p, rfl, helems ▸ hpeel, rfl⟩

theorem adjustPacketAfterSend_setting (h : s.adjustPacketAfterSend cfg n = .ok (more, s')) :
    SameSetting s s' := by
  obtain ⟨-, rfl⟩ | ⟨_, _, _, _, -, -, rfl⟩ := adjustPacketAfterSend_cases h
  · exact .refl _
  · exact ⟨rfl, rfl, rfl, rfl, rfl, rfl, rfl⟩

theorem sendPacket_setting {answer : Answer} {outcome : Outcome}
    (h : s.sendPacket cfg answer = .ok (outcome, s')) : SameSetting s s' := by
  obtain ⟨-, ⟨-, -, rfl⟩ | ⟨-, -, rfl⟩ | ⟨n, more, -, -, -, hadjust, -⟩⟩ := sendPacket_cases h
  · exact hand_setting s
  · exact hand_setting s
  · exact ((hand_setting s).trans (accept_setting n _)).trans (adjustPacketAfterSend_setting hadjust)

theorem clear_cases {mode : SendMode} (h : s.clear cfg mode = .ok s') :
    ∃ cleared, (s.sendDelayedNotifications fun _ => true).clearPacket cfg = .ok cleared ∧
      s' = { cleared with
        elems := []
        queue := []
        header := { cleared.header with length := 0 }
        pktChain := []
        headerComplete := false
        startCounter := 0
        mode
        modeBeforeSuspend := .notSet
        packets := cleared.packets ++ cleared.current.toList
        current := none
        notified := cleared.notified ++ (cleared.elems ++ cleared.queue).map fun e => (e, .dropped) } := by
  unfold Strategy.clear at h
  split at h
  · cases h
  · next cleared hpacket =>
    simp only [foldl_dataDropped, Except.ok.injEq] at h
    exact ⟨cleared, hpacket, h.symm⟩

theorem clearPacket_cases (h : s.clearPacket cfg = .ok s') :
    (s.header.length = 0 ∧ s' = s) ∨
      (s.header.length ≠ 0 ∧ s.pktChain ≠ [] ∧ ∃ more,
        s.adjustPacketAfterSend cfg (toInt (totalLength s.pktChain)) = .ok (more, s')) := by
  unfold Strategy.clearPacket at h
  split_ifs at h with hlength hnull
  · obtain ⟨⟨more, adjusted⟩, hadjust, hsame⟩ := map_eq_ok h
    obtain rfl : adjusted = s' := hsame
    exact .inr ⟨hlength, hnull, more, hadjust⟩
  · cases h
    exact .inl ⟨by simpa using hlength, rfl⟩

def elementsLength (es : List ε) : Nat := (es.map elementLength).sum

def elementsBytes (es : List ε) : List UInt8 := chainBytes (es.flatMap msg)

def Packet.bytes (p : Packet ε) : List UInt8 := p.header ++ elementsBytes p.elements

def Packet.size (p : Packet ε) : Nat := p.header.length + elementsLength p.elements

/-- An element goes from the queue into the packet. -/
def Strategy.take (e : ε) (rest : List ε) (s : Strategy ε) : Strategy ε :=
  let s := { s with queue := rest }
  (if s.header.length = 0 then { s with header := { s.header with lastFragment := isFragment e } }
    else s).putElement e

theorem getPacketElems_fits (rest : List ε) (hfits : elementLength e ≤ s.spaceAvailable cfg) :
    getPacketElems cfg (e :: rest) s =
      if requiresExclusivePacket e = true ∧ s.elems ≠ [] then { s with queue := e :: rest }
      else if requiresExclusivePacket e || (s.take e rest).elems.length = cfg.maxSamples ||
          cfg.optimumSize ≤ (s.take e rest).header.length.toNat then s.take e rest
      else getPacketElems cfg rest (s.take e rest) := by
  have hwhole : ¬ s.spaceAvailable cfg < elementLength e := Nat.not_lt_of_le hfits
  rw [getPacketElems]
  by_cases hexclusive : requiresExclusivePacket e = true
  · by_cases hfirst : s.elems = []
    · simp [hwhole, hexclusive, hfirst, Strategy.take]
    · simp [hwhole, hexclusive, hfirst]
  · simp [hwhole, hexclusive, Strategy.take]

theorem getPacketElems_stops (rest : List ε) (hsize : cfg.maxMessageSize = 0)
    (hlarge : s.spaceAvailable cfg < elementLength e) :
    getPacketElems cfg (e :: rest) s = { s with queue := e :: rest } := by
  rw [getPacketElems]
  simp [hsize, hlarge]

/-- The first part of an element goes from the queue into the packet. -/
def Strategy.cut (e : ε) (n : Nat) (rest : List ε) (s : Strategy ε) : Strategy ε :=
  let s := { s with
    header := { s.header with firstFragment := !isFragment e }
    queue := (fragment e n).2 :: rest }
  if requiresExclusivePacket e = true ∧ s.elems ≠ [] then s
  else
    (if s.header.length = 0 then { s with header := { s.header with lastFragment := false } }
      else s).putElement (fragment e n).1

theorem getPacketElems_cut (rest : List ε) (hsize : cfg.maxMessageSize ≠ 0)
    (hlarge : s.spaceAvailable cfg < elementLength e) :
    getPacketElems cfg (e :: rest) s = s.cut e (s.spaceAvailable cfg) rest := by
  rw [getPacketElems]
  by_cases hexclusive : requiresExclusivePacket e = true
  · by_cases hfirst : s.elems = []
    · simp [hlarge, hsize, hexclusive, hfirst, Strategy.cut]
    · simp [hlarge, hsize, hexclusive, hfirst, Strategy.cut]
  · simp [hlarge, hsize, hexclusive, Strategy.cut]

def form (h : TransportHeader.Header) : Bool × Vector (BitVec 8) 6 := (h.byteOrder, h.protocol)

theorem take_eq (e : ε) (rest : List ε) (s : Strategy ε) :
    s.take e rest =
        { s with queue := rest, elems := s.elems ++ [e], header := (s.take e rest).header } ∧
      (s.take e rest).header.length = s.header.length + BitVec.ofNat 32 (elementLength e) ∧
      form (s.take e rest).header = form s.header := by
  unfold Strategy.take Strategy.putElement
  simp only
  split_ifs <;> exact ⟨rfl, rfl, rfl⟩

theorem getPacketElems_whole (hsize : cfg.maxMessageSize = 0) (es : List ε) (s : Strategy ε) :
    ∃ taken rest header, es = taken ++ rest ∧
      getPacketElems cfg es s = { s with queue := rest, elems := s.elems ++ taken, header } ∧
      form header = form s.header := by
  induction es generalizing s with
  | nil => exact ⟨[], [], s.header, rfl, by simp [getPacketElems], rfl⟩
  | cons e rest ih =>
    obtain ⟨htake, -, horder⟩ := take_eq e rest s
    by_cases hfits : elementLength e ≤ s.spaceAvailable cfg
    · rw [getPacketElems_fits rest hfits]
      split_ifs
      · exact ⟨[], e :: rest, s.header, rfl, by simp, rfl⟩
      · exact ⟨[e], rest, (s.take e rest).header, rfl, htake, horder⟩
      · obtain ⟨taken, left, header, hrest, heq, hheader⟩ := ih (s.take e rest)
        refine ⟨e :: taken, left, header, by rw [hrest]; rfl, ?_, hheader.trans horder⟩
        rw [heq, htake]
        simp
    · rw [getPacketElems_stops rest hsize (Nat.lt_of_not_le hfits)]
      exact ⟨[], e :: rest, s.header, rfl, by simp, rfl⟩

theorem getPacketElems_eq (es : List ε) (s : Strategy ε) :
    getPacketElems cfg es s = { s with
      queue := (getPacketElems cfg es s).queue
      elems := (getPacketElems cfg es s).elems
      header := (getPacketElems cfg es s).header } := by
  induction es generalizing s with
  | nil => rfl
  | cons e rest ih =>
    by_cases hfits : elementLength e ≤ s.spaceAvailable cfg
    · rw [getPacketElems_fits rest hfits]
      split_ifs
      · rfl
      · rw [(take_eq e rest s).1]
      · rw [ih, (take_eq e rest s).1]
    · have hlarge : s.spaceAvailable cfg < elementLength e := Nat.lt_of_not_le hfits
      by_cases hsize : cfg.maxMessageSize = 0
      · rw [getPacketElems_stops rest hsize hlarge]
      · rw [getPacketElems_cut rest hsize hlarge]
        unfold Strategy.cut Strategy.putElement
        simp only
        split_ifs <;> rfl

theorem workPacket_setting (cfg : Config) (s : Strategy ε) :
    (s.workPacket cfg).mode = s.mode ∧
      (s.workPacket cfg).modeBeforeSuspend = s.modeBeforeSuspend ∧
      (s.workPacket cfg).linkReleased = s.linkReleased ∧
      (s.workPacket cfg).transportShutdown = s.transportShutdown := by
  unfold Strategy.workPacket
  split_ifs
  · rw [getPacketElems_eq]
    exact ⟨rfl, rfl, rfl, rfl⟩
  · exact ⟨rfl, rfl, rfl, rfl⟩

section

variable [DecidableEq ε] (x : ε)

/-- How often an element is in `queue_`, in `elems_`, among the delayed notifications and
among those that were given. -/
def Strategy.occurrences (s : Strategy ε) (e : ε) : Nat :=
  s.queue.count e + s.elems.count e + (s.delayed.map Prod.fst).count e +
    (s.notified.map Prod.fst).count e

theorem sendDelayedNotifications_occurrences (select : ε → Bool)
    (hrunning : s.transportShutdown = false) :
    (s.sendDelayedNotifications select).occurrences x = s.occurrences x := by
  have hperm := ((List.filter_append_perm (fun d : ε × SendMode => select d.1) s.delayed).map
    Prod.fst).count_eq x
  simp only [List.map_append, List.count_append] at hperm
  rw [sendDelayedNotifications_eq select hrunning]
  simp only [Strategy.occurrences, List.map_append, List.count_append, fst_fates]
  omega

theorem append_occurrences (e : ε) :
    (s.append e).occurrences x = s.occurrences x + [e].count x := by
  simp only [Strategy.occurrences, Strategy.append, Strategy.putElement, List.count_append]
  omega

theorem peel_occurrences {mode : SendMode} {chain chain' : List MessageBlock} {p p' : Peeling ε}
    (h : peel cfg mode chain p = .ok (chain', p')) :
    p'.elems.count x + (p'.delayed.map Prod.fst).count x + p'.elemsToNotify.count x =
      p.elems.count x + (p.delayed.map Prod.fst).count x + p.elemsToNotify.count x := by
  induction chain generalizing p with
  | nil =>
    unfold peel at h
    split_ifs at h
    cases h
    rfl
  | cons b rest ih =>
    unfold peel at h
    simp only at h
    split_ifs at h with hdone hwhole hheader hlast
    · cases h
      rfl
    · have hrest := ih h
      exact hrest
    · split at h
      · cases h
      · next q hextract =>
        rw [ih h]
        unfold Peeling.extract at hextract
        split at hextract
        · cases hextract
        · next e elems helems =>
          simp only at helems hextract
          rw [helems]
          split_ifs at hextract <;>
            · cases hextract
              simp only [List.map_append, List.count_append, List.map_cons, List.map_nil,
                List.count_cons, List.count_nil]
              omega
    · have hrest := ih h
      exact hrest
    · cases h
      rfl
    · cases h
      rfl

theorem adjustPacketAfterSend_occurrences (h : s.adjustPacketAfterSend cfg n = .ok (more, s')) :
    s'.occurrences x = s.occurrences x := by
  obtain ⟨-, rfl⟩ | ⟨_, _, _, p, -, hpeel, rfl⟩ := adjustPacketAfterSend_cases h
  · rfl
  · have hmoved := peel_occurrences x hpeel
    simp only [List.count_nil] at hmoved
    simp only [Strategy.occurrences, Strategy.adjusted, List.map_append, List.count_append,
      List.map_map, Function.comp_def, List.map_id']
    omega

theorem sendPacket_occurrences {answer : Answer} {outcome : Outcome}
    (h : s.sendPacket cfg answer = .ok (outcome, s')) : s'.occurrences x = s.occurrences x := by
  obtain ⟨-, ⟨-, -, rfl⟩ | ⟨-, -, rfl⟩ | ⟨n, more, -, -, -, hadjust, -⟩⟩ := sendPacket_cases h
  · rfl
  · rfl
  · exact (adjustPacketAfterSend_occurrences x hadjust).trans rfl

theorem getPacketElems_occurrences (hsize : cfg.maxMessageSize = 0) :
    (getPacketElems cfg s.queue s).occurrences x = s.occurrences x := by
  obtain ⟨taken, rest, header, hqueue, heq, -⟩ := getPacketElems_whole hsize s.queue s
  rw [heq]
  simp only [Strategy.occurrences, List.count_append]
  rw [hqueue, List.count_append]
  omega

end

end OpenDDS.Source.SendStrategy
