import OpenDDS.Guarantees.ReceiveChunking
import OpenDDS.Guarantees.SentStream
import OpenDDS.Source.TcpConnection

/-!
# The start of a new connection

A connection that is established again goes on with the packet that was sent in part over the
old one, and the receiver with the packet of which it got a part: neither side starts again.
When the last packet was accepted completely or not at all, the new connection starts with a
header; a receiver that got whole packets expects one.
-/
namespace OpenDDS.Guarantees.ReconnectBoundary

open Library Library.Folds Source Source.SendStrategy PacketSending PreparedPackets
open Source.TcpConnection (Connection Event TcpReceiveStrategy)
open ElementFates (smallPackets element)

variable {ε : Type} {cfg : Config} {s s' s'' : Strategy ε}

/-- More was accepted of the packet. -/
structure Advanced (p p' : Packet ε) : Prop where
  header : p'.header = p.header
  elements : p'.elements = p.elements
  accepted : p.accepted ≤ p'.accepted

theorem Advanced.trans {p p' p'' : Packet ε} (h : Advanced p p') (h' : Advanced p' p'') :
    Advanced p p'' :=
  ⟨h'.header.trans h.header, h'.elements.trans h.elements, h.accepted.trans h'.accepted⟩

/-- What becomes of the packets: the one in the chain advances, others come behind it. -/
structure Grows (s s' : Strategy ε) : Prop where
  running : s.transportShutdown = false → s'.transportShutdown = false
  packets : s.packets <+: s'.packets
  current : (∃ later, s'.packets ++ s'.current.toList = s.packets ++ s.current.toList ++ later) ∨
    ∃ p p' later, s.current = some p ∧
      s'.packets ++ s'.current.toList = s.packets ++ p' :: later ∧ Advanced p p'

theorem Grows.kept (hpackets : s'.packets = s.packets) (hcurrent : s'.current = s.current)
    (hshutdown : s'.transportShutdown = s.transportShutdown) : Grows s s' :=
  ⟨hshutdown.trans, by rw [hpackets], .inl ⟨[], by rw [hpackets, hcurrent, List.append_nil]⟩⟩

theorem Grows.leave (hpackets : s'.packets = s.packets ++ s.current.toList)
    (hcurrent : s'.current = none) (hshutdown : s'.transportShutdown = s.transportShutdown) :
    Grows s s' :=
  ⟨hshutdown.trans, by rw [hpackets]; exact List.prefix_append _ _, .inl ⟨[], by rw [hpackets, hcurrent]; simp⟩⟩

theorem Grows.trans (h : Grows s s') (h' : Grows s' s'') : Grows s s'' := by
  refine ⟨fun hrunning => h'.running (h.running hrunning), h.packets.trans h'.packets, ?_⟩
  have hbegins := h.packets.length_le
  obtain ⟨later', hlater'⟩ | ⟨q, q', later', hq, hlater', hadvanced'⟩ := h'.current
  · obtain ⟨later, hlater⟩ | ⟨p, p', later, hp, hlater, hadvanced⟩ := h.current
    · exact .inl ⟨later ++ later', by rw [hlater', hlater, List.append_assoc]⟩
    · exact .inr ⟨p, p', later ++ later', hp, by rw [hlater', hlater]; simp, hadvanced⟩
  · obtain ⟨later, hlater⟩ | ⟨p, p', later, hp, hlater, hadvanced⟩ := h.current
    · rw [hq, Option.toList_some] at hlater
      obtain rfl | ⟨front, last, rfl⟩ := List.eq_nil_or_concat later
      · cases hp : s.current with
        | none =>
          rw [hp] at hlater
          have hlength := congrArg List.length hlater
          simp at hlength
          omega
        | some p =>
          rw [hp, Option.toList_some, List.append_nil] at hlater
          obtain ⟨hpackets, hlast⟩ := List.append_inj' hlater rfl
          cases hlast
          exact .inr ⟨q, q', later', rfl, by rw [hlater', hpackets], hadvanced'⟩
      · rw [List.concat_eq_append, ← List.append_assoc] at hlater
        obtain ⟨hpackets, -⟩ := List.append_inj' hlater rfl
        exact .inl ⟨front ++ q' :: later', by rw [hlater', hpackets, List.append_assoc]⟩
    · rw [hq, Option.toList_some] at hlater
      obtain rfl | ⟨front, last, rfl⟩ := List.eq_nil_or_concat later
      · obtain ⟨hpackets, hlast⟩ := List.append_inj' hlater rfl
        cases hlast
        exact .inr ⟨p, q', later', hp, by rw [hlater', hpackets], hadvanced.trans hadvanced'⟩
      · rw [List.concat_eq_append, ← List.cons_append, ← List.append_assoc] at hlater
        obtain ⟨hpackets, -⟩ := List.append_inj' hlater rfl
        exact .inr ⟨p, p', front ++ q' :: later', hp, by rw [hlater', hpackets]; simp, hadvanced⟩

section

variable [QueueElement ε]

theorem preparePacket_grows (cfg : Config) (s : Strategy ε) : Grows s (s.preparePacket cfg) :=
  ⟨id, List.prefix_append _ _, .inl ⟨_, rfl⟩⟩

theorem sendPacket_grows {answer : Answer} {outcome : Outcome}
    (h : s.sendPacket cfg answer = .ok (outcome, s')) : Grows s s' := by
  have hshutdown := (sendPacket_setting h).shutdown
  cases hcurrent : s.current with
  | none =>
    have hkept : s'.packets = s.packets ∧ s'.current = none := by
      obtain ⟨-, ⟨-, -, rfl⟩ | ⟨-, -, rfl⟩ | ⟨n, more, -, -, -, hadjust, -⟩⟩ := sendPacket_cases h
      · exact ⟨rfl, by simp [Strategy.hand, hcurrent]⟩
      · exact ⟨rfl, by simp [Strategy.hand, hcurrent]⟩
      · have haccept : ((s.hand cfg).accept cfg n).current = none := by
          simp [Strategy.accept, Strategy.hand, hcurrent]
        obtain ⟨-, rfl⟩ | ⟨_, _, _, _, -, -, rfl⟩ := adjustPacketAfterSend_cases hadjust
        · exact ⟨rfl, haccept⟩
        · exact ⟨rfl, haccept⟩
    exact .kept hkept.1 (hkept.2.trans hcurrent.symm) hshutdown
  | some p =>
    obtain ⟨hpackets, n, hcurrent'⟩ := SentStream.sendPacket_current hcurrent h
    refine ⟨hshutdown.trans, by rw [hpackets], .inr ⟨p, handOver cfg s n p, [], hcurrent, ?_, rfl, rfl, ?_⟩⟩
    · rw [hpackets, hcurrent']
      rfl
    · exact Nat.le_add_right _ _

theorem notifications_grows (select : ε → Bool) (hrunning : s.transportShutdown = false) :
    Grows s (s.sendDelayedNotifications select) := by
  have hsame := notifications_same select hrunning
  exact .kept hsame.packets hsame.current (sendDelayedNotifications_setting select hrunning).shutdown

omit [QueueElement ε] in
theorem suspendSend_grows (s : Strategy ε) : Grows s s.suspendSend := by
  unfold Strategy.suspendSend
  split_ifs <;> exact .kept rfl rfl rfl

omit [QueueElement ε] in
theorem resumeSend_grows (s : Strategy ε) : Grows s s.resumeSend := by
  unfold Strategy.resumeSend
  split_ifs
  · exact .leave rfl rfl rfl
  · exact .kept rfl rfl rfl
  · exact .kept rfl rfl rfl

theorem clearPacket_kept (h : s.clearPacket cfg = .ok s') :
    s'.packets = s.packets ∧ s'.current = s.current ∧ s'.transportShutdown = s.transportShutdown := by
  obtain ⟨-, rfl⟩ | ⟨-, -, more, hadjust⟩ := clearPacket_cases h
  · exact ⟨rfl, rfl, rfl⟩
  · obtain ⟨-, rfl⟩ | ⟨_, _, _, _, -, -, rfl⟩ := adjustPacketAfterSend_cases hadjust
    · exact ⟨rfl, rfl, rfl⟩
    · exact ⟨rfl, rfl, rfl⟩

theorem terminateSend_grows {graceful : Bool} (hrunning : s.transportShutdown = false)
    (h : s.terminateSend cfg graceful = .ok s') : Grows s s' := by
  obtain ⟨final, hclear, hfinal⟩ := map_eq_ok h
  obtain ⟨cleared, hcleared, rfl⟩ := clear_cases hclear
  have hsame := notifications_same (fun _ : ε => true) hrunning
  have hset := sendDelayedNotifications_setting (fun _ : ε => true) hrunning
  obtain ⟨hpackets, hcurrent, hshutdown⟩ := clearPacket_kept hcleared
  rw [hsame.packets] at hpackets
  rw [hsame.current] at hcurrent
  rw [hset.shutdown] at hshutdown
  rw [← hfinal]
  split_ifs
  · exact .leave (by rw [← hpackets, ← hcurrent]) rfl hshutdown
  · exact .leave (by rw [← hpackets, ← hcurrent]) rfl hshutdown

theorem relink_grows {doSuspend : Bool} {effect : Relink} (hrunning : s.transportShutdown = false)
    (h : s.relink cfg doSuspend effect = .ok s') : Grows s s' := by
  have hsuspended : Grows s (if doSuspend then s.suspendSend else s) := by
    split_ifs
    · exact suspendSend_grows s
    · exact .kept rfl rfl rfl
  cases effect with
  | unchanged =>
    cases h
    exact .kept rfl rfl rfl
  | suspended =>
    cases h
    exact hsuspended
  | resumed =>
    cases h
    exact hsuspended.trans (resumeSend_grows _)
  | terminated => exact hsuspended.trans (terminateSend_grows (hsuspended.running hrunning) h)

omit [QueueElement ε] in
theorem interrupt_grows (s : Strategy ε) : Grows s s.interrupt := by
  unfold Strategy.interrupt
  split_ifs <;> exact .kept rfl rfl rfl

section

variable {relink : Bool} {attempts rest : List Attempt} {e : ε}

theorem directSendLoop_grows (hrunning : s.transportShutdown = false)
    (h : directSendLoop cfg relink attempts s = .ok (rest, s')) : Grows s s' := by
  induction attempts generalizing s rest with
  | nil => cases h
  | cons attempt attempts ih =>
    cases directSendLoop_cases h with
    | complete hsend => exact sendPacket_grows hsend
    | clogged outcome sent hsend hkind hfinal =>
      rw [hfinal]
      exact (sendPacket_grows hsend).trans (.kept rfl rfl rfl)
    | failed outcome sent hsend hfails hstays hfinal =>
      rw [hfinal]
      exact (sendPacket_grows hsend).trans (interrupt_grows sent)
    | given outcome sent hsend hfails htries hrelink =>
      have hsent := (sendPacket_grows hsend).trans (interrupt_grows sent)
      exact hsent.trans (relink_grows (hsent.running hrunning) hrelink)
    | retried outcome sent again rest hsend hfails htries hrelink hmode hloop =>
      have hsent := (sendPacket_grows hsend).trans (interrupt_grows sent)
      have hagain := hsent.trans (relink_grows (hsent.running hrunning) hrelink)
      exact hagain.trans (ih (hagain.running hrunning) hloop)

theorem directSend_grows (hrunning : s.transportShutdown = false)
    (h : directSend cfg relink attempts s = .ok (rest, s')) : Grows s s' := by
  have hprepared := preparePacket_grows cfg s
  exact hprepared.trans (directSendLoop_grows (hprepared.running hrunning) h)

theorem append_grows (e : ε) (s : Strategy ε) : Grows s (s.append e) := .kept rfl rfl rfl

theorem appends_grows (hrunning : s.transportShutdown = false)
    (h : Appends cfg relink e attempts s s') : Grows s s' := by
  cases h with
  | collected => exact append_grows e s
  | sent rest final hmode hfull hsend =>
    have hcollected := append_grows e s
    exact hcollected.trans (directSend_grows (hcollected.running hrunning) hsend)
  | skipped => exact .kept rfl rfl rfl

theorem send_grows (hsize : cfg.maxMessageSize = 0) (hopen : s.linkReleased = false)
    (hrunning : s.transportShutdown = false) (h : s.send cfg relink e attempts = .ok s') :
    Grows s s' := by
  cases send_cases hsize hopen h with
  | discarded => exact .kept rfl rfl rfl
  | refused => exact .kept rfl rfl rfl
  | queued => exact .kept rfl rfl rfl
  | appended final hlive hfits hmode hroom happends =>
    have hfinal := appends_grows hrunning happends
    exact hfinal.trans (notifications_grows _ (hfinal.running hrunning))
  | queuedBehind rest ready hlive hfits hmode hfull hsends =>
    exact (directSend_grows hrunning hsends).trans (.kept rfl rfl rfl)
  | appendedBehind rest ready final hlive hfits hmode hfull hsends hnow happends =>
    have hready := directSend_grows hrunning hsends
    have hfinal := hready.trans (appends_grows (hready.running hrunning) happends)
    exact hfinal.trans (notifications_grows _ (hfinal.running hrunning))

theorem sendStop_grows (hrunning : s.transportShutdown = false) {repoId : Option Nat}
    (h : s.sendStop cfg repoId attempts = .ok s') : Grows s s' := by
  have hcounted : ∀ n, Grows s { s with startCounter := n } := fun n => .kept rfl rfl rfl
  cases sendStop_cases h with
  | ignored n => exact hcounted n
  | notified n select => exact (hcounted n).trans (notifications_grows select hrunning)
  | sent n select rest final hmode hlength helems hsends =>
    have hfinal := (hcounted n).trans (directSend_grows ((hcounted n).running hrunning) hsends)
    exact hfinal.trans (notifications_grows select (hfinal.running hrunning))

end

theorem workPacket_grows (cfg : Config) (s : Strategy ε) : Grows s (s.workPacket cfg) := by
  unfold Strategy.workPacket
  split_ifs
  · have hgathered : Grows s (getPacketElems cfg s.queue s) := by
      rw [getPacketElems_eq]
      exact .kept rfl rfl rfl
    exact hgathered.trans (preparePacket_grows cfg _)
  · exact .kept rfl rfl rfl

theorem performWork_grows (hrunning : s.transportShutdown = false) {attempt : Attempt}
    {outcome : WorkOutcome} (h : s.performWork cfg attempt = .ok (outcome, s')) : Grows s s' := by
  have hsends : ∀ {outcome sent},
      (s.workPacket cfg).sendPacket cfg attempt.answer = .ok (outcome, sent) → Grows s sent :=
    fun hsend => (workPacket_grows cfg s).trans (sendPacket_grows hsend)
  cases performWork_cases h with
  | ignored => exact .kept rfl rfl rfl
  | drained => exact .kept rfl rfl rfl
  | finished sent hmode hwork hsend hqueue =>
    have hdirect : Grows s { sent with mode := .direct } := (hsends hsend).trans (.kept rfl rfl rfl)
    exact hdirect.trans (notifications_grows _ (hdirect.running hrunning))
  | failed outcome sent final hmode hwork hsend hfails hrelink =>
    have hsent := hsends hsend
    have hnotified := hsent.trans (notifications_grows (fun _ => true) (hsent.running hrunning))
    exact hnotified.trans (relink_grows (hnotified.running hrunning) hrelink)
  | unfinished outcome sent hmode hwork hsend =>
    have hsent := hsends hsend
    exact hsent.trans (notifications_grows _ (hsent.running hrunning))

theorem perform_grows (hsize : cfg.maxMessageSize = 0) (hstands : SendStrategy.Stands s) {call : Call ε}
    (h : s.perform cfg call = .ok s') : Grows s s' := by
  cases call with
  | sendStart =>
    cases h
    unfold Strategy.sendStart
    split_ifs <;> exact .kept rfl rfl rfl
  | send relink e attempts => exact send_grows hsize hstands.released hstands.running h
  | sendStop repoId attempts => exact sendStop_grows hstands.running h
  | performWork attempt =>
    obtain ⟨⟨outcome, final⟩, hwork, rfl⟩ := map_eq_ok h
    exact performWork_grows hstands.running hwork
  | suspendSend =>
    cases h
    exact suspendSend_grows s
  | resumeSend =>
    cases h
    exact resumeSend_grows s
  | terminateSend graceful => exact terminateSend_grows hstands.running h

end

variable [QueueElement ε]

/-- What was accepted since `s`: packets from their first byte on, each with its whole header
handed over first. -/
def OnBoundary (cfg : Config) (s s' : Strategy ε) : Prop :=
  ∃ later : List (Packet ε), s'.accepted = s.accepted ++ later.flatMap (fun p => p.bytes.take p.accepted) ∧
    ∀ p ∈ later, Tracked cfg p

theorem grows_onBoundary {least : Nat} (h : Ready cfg least s) (h' : Ready cfg least s')
    (hgrows : Grows s s') (hwhole : s.partlySent = false) : OnBoundary cfg s s' := by
  obtain ⟨extra, hpacks, -⟩ := h.packs
  obtain ⟨extra', hpacks', -⟩ := h'.packs
  have hstream := hpacks.recorded.stream
  have hstream' := hpacks'.recorded.stream
  obtain ⟨later, hlater⟩ | ⟨p, p', later, hp, hlater, hadvanced⟩ := hgrows.current
  · refine ⟨later, ?_, fun q hq => hpacks'.recorded.packets q (by rw [hlater]; simp [hq])⟩
    rw [hstream', hlater, List.flatMap_append, ← hstream]
  · have htracked : Tracked cfg p' := hpacks'.recorded.packets p' (by rw [hlater]; simp)
    have hbytes : p'.bytes = p.bytes := by rw [Packet.bytes, hadvanced.header, hadvanced.elements]; rfl
    rw [hp, Option.toList_some, List.flatMap_append, List.flatMap_singleton] at hstream
    rw [hlater, List.flatMap_append, List.flatMap_cons] at hstream'
    have hlaterTracked : ∀ q ∈ later, Tracked cfg q := fun q hq =>
      hpacks'.recorded.packets q (by rw [hlater]; simp [hq])
    obtain ⟨q, sent, left, hq, hchained⟩ | ⟨hrests, hall⟩ := hpacks.holds
    · obtain rfl : q = p := Option.some.inj (hq.symm.trans hp)
      have hes : ∀ e ∈ left, Sendable e := fun e he => hpacks.sendable_left hchained e (by simp [he])
      rw [(partlySent_of_chained hq hchained hes).1] at hwhole
      have hnone : q.accepted = 0 := by simpa using hwhole
      refine ⟨p' :: later, ?_, ?_⟩
      · rw [hstream', hstream, hnone]
        simp
      · intro x hx
        rw [List.mem_cons] at hx
        rcases hx with rfl | hx
        · exact htracked
        · exact hlaterTracked x hx
    · have hfull := hall p hp
      have hsame : p'.accepted = p.accepted := by
        have hle := htracked.accepted
        have hsize : p'.size = p.size := by rw [← bytes_length, hbytes, bytes_length]
        have hadvance := hadvanced.accepted
        omega
      refine ⟨later, ?_, hlaterTracked⟩
      rw [hstream', hstream, hsame, hbytes, List.append_assoc]

section

variable {events : List (Event ε)} {c c₁ : Connection ε}

def OrderlyEvent (cfg : Config) (c : Connection ε) : Event ε → Prop
  | .call call => Orderly cfg 0 c.sendStrategy call
  | .startReconnect _ => True
  | .finishReconnect established =>
    Orderly cfg 0 c.sendStrategy (if established then .resumeSend else .terminateSend false)

def StepsOrderly (cfg : Config) (c : Connection ε) (event : Event ε) (c' : Connection ε) : Prop :=
  c.step cfg event = some c' ∧ OrderlyEvent cfg c event

theorem step_ready (hsize : cfg.maxMessageSize = 0) (hcfg : Roomy cfg 0)
    (hready : Ready cfg 0 c.sendStrategy) {event : Event ε} (h : StepsOrderly cfg c event c₁) :
    Ready cfg 0 c₁.sendStrategy ∧ Grows c.sendStrategy c₁.sendStrategy := by
  have hperform : ∀ call s', Orderly cfg 0 c.sendStrategy call →
      c.sendStrategy.perform cfg call = .ok s' → Ready cfg 0 s' ∧ Grows c.sendStrategy s' := by
    intro call s' horderly hs'
    have hgoes := perform_goes hcfg hready horderly
    rw [hs'] at hgoes
    exact ⟨hgoes, perform_grows hsize hready.stands hs'⟩
  obtain ⟨hstep, horderly⟩ := h
  cases event with
  | call call =>
    unfold Connection.step at hstep
    simp only at hstep
    split_ifs at hstep
    obtain ⟨s', hs', rfl⟩ := Option.map_eq_some_iff.mp hstep
    exact hperform call s' horderly (toOption_eq_some hs')
  | startReconnect delayed =>
    unfold Connection.step at hstep
    split_ifs at hstep
    cases hstep
    unfold Connection.startReconnect
    simp only
    split_ifs
    all_goals first
      | exact ⟨hready.suspendSend, suspendSend_grows _⟩
      | exact ⟨hready, .kept rfl rfl rfl⟩
  | finishReconnect established =>
    unfold Connection.step at hstep
    split_ifs at hstep
    have hfinish := toOption_eq_some hstep
    cases established with
    | true =>
      cases hfinish
      exact hperform .resumeSend _ horderly rfl
    | false =>
      obtain ⟨s', hs', rfl⟩ := map_eq_ok hfinish
      exact hperform (.terminateSend false) s' horderly hs'

theorem run_ready {start : Connection ε} (hsize : cfg.maxMessageSize = 0) (hcfg : Roomy cfg 0)
    (hstart : Ready cfg 0 start.sendStrategy) (hrun : Run start (StepsOrderly cfg) events c) :
    Ready cfg 0 c.sendStrategy ∧ Grows start.sendStrategy c.sendStrategy := by
  refine hrun.invariant (fun c => Ready cfg 0 c.sendStrategy ∧ Grows start.sendStrategy c.sendStrategy)
    ⟨hstart, .kept rfl rfl rfl⟩ ?_
  rintro c event c' ⟨hready, hgrows⟩ hstep
  obtain ⟨hready', hgrows'⟩ := step_ready hsize hcfg hready hstep
  exact ⟨hready', hgrows.trans hgrows'⟩

end

section

variable {host : ByteOrder} {reassemble : ReceiveStrategy.Reassemble}

def ExpectsHeader (r : ReceiveStrategy.Strategy) : Prop :=
  r.pduRemaining = 0 ∧ BufferRing.unreadSlots r.buffers = []

theorem expectsHeader_of_awaits {r : ReceiveStrategy.Strategy} {final : ReceiveStrategy.Log}
    (h : PacketParsing.Awaits host reassemble r [] final) : ExpectsHeader r := by
  have hused := h.used rfl
  obtain ⟨rest, ss, ps, hstands, -⟩ := h.expects
  have hstream := hstands.stream
  rw [hused, List.nil_append, eq_comm, List.append_eq_nil_iff, List.append_eq_nil_iff] at hstream
  obtain ⟨hrest, hss, -⟩ := hstream
  refine ⟨?_, hused⟩
  rw [hstands.pdu, hrest, hss]
  rfl

end

section

variable {host : ByteOrder} {reassemble : ReceiveStrategy.Reassemble}
  {events later : List (Event ε)} {c c₁ c₂ : Connection ε} {pieces : List (List UInt8)}
  {r r' : TcpReceiveStrategy} {connection : Nat}

theorem reconnect_whole (h : c.step cfg (.finishReconnect true) = some c₁)
    (hwhole : c.sendStrategy.partlySent = false) : c₁.sendStrategy.partlySent = false := by
  unfold Connection.step at h
  split_ifs at h
  cases h
  unfold Strategy.resumeSend
  split_ifs
  · rfl
  · exact hwhole
  · exact hwhole

/-- If no packet was sent in part, a connection that is established again starts on a packet;
and a receiver of whole packets expects a header on the new connection. -/
theorem starts_on_packet (hsize : cfg.maxMessageSize = 0) (hword : cfg.maxSize < 2 ^ 32)
    (hrun : Run (TcpConnection.create cfg.host) (StepsOrderly cfg) events c)
    (hwhole : c.sendStrategy.partlySent = false)
    (hreconnect : StepsOrderly cfg c (.finishReconnect true) c₁)
    (hlater : Run c₁ (StepsOrderly cfg) later c₂) (ps : List PacketParsing.Packet)
    (hps : ∀ p ∈ ps, p.WellFormed host)
    (hreceived : Run (ReceiveStrategy.create host) (ReceiveChunking.ReceivesReady host reassemble) pieces
      r.strategy)
    (hpieces : pieces.flatten = PacketParsing.packetsBytes host ps)
    (hreset : r.reset connection = some r') :
    OnBoundary cfg c₁.sendStrategy c₂.sendStrategy ∧ ExpectsHeader r'.strategy := by
  have hcfg : Roomy cfg 0 := ⟨hword, fun hnot => absurd hsize hnot, Nat.zero_le _⟩
  constructor
  · obtain ⟨hready, -⟩ := run_ready hsize hcfg (create_ready cfg 0) hrun
    obtain ⟨hready₁, -⟩ := step_ready hsize hcfg hready hreconnect
    obtain ⟨hready₂, hgrows⟩ := run_ready hsize hcfg hready₁ hlater
    exact grows_onBoundary hready₁ hready₂ hgrows (reconnect_whole hreconnect.1 hwhole)
  · have hawaits := ReceiveChunking.run_awaits hps hreceived [] (by rw [List.append_nil, hpieces])
    have hsame : r'.strategy = r.strategy := by
      unfold TcpReceiveStrategy.reset at hreset
      split at hreset
      · cases hreset
      · split_ifs at hreset
        cases hreset
        rfl
    rw [hsame]
    exact expectsHeader_of_awaits hawaits

end

section

def checksEvent (cfg : Config) (c : Connection ε) : Event ε → Bool
  | .call call => checks cfg c.sendStrategy call
  | .startReconnect _ => true
  | .finishReconnect established =>
    checks cfg c.sendStrategy (if established then .resumeSend else .terminateSend false)

def proceed (cfg : Config) (c : Connection ε) (event : Event ε) : Option (Connection ε) :=
  if checksEvent cfg c event then c.step cfg event else none

theorem stepsOrderly_of (hsize : cfg.maxMessageSize = 0) (c : Connection ε) (event : Event ε)
    (after : Connection ε) (h : proceed cfg c event = some after) : StepsOrderly cfg c event after := by
  unfold proceed at h
  split_ifs at h with hchecks
  refine ⟨h, ?_⟩
  cases event with
  | call call => exact orderly_of_checks hsize 0 hchecks
  | startReconnect delayed => trivial
  | finishReconnect established => exact orderly_of_checks hsize 0 hchecks

/-- The connection is lost before anything was accepted of the packet. -/
def lostBefore : List (Event WholeElement) :=
  [.call .sendStart, .call (.send true (element 1 false) []),
    .call (.sendStop none [⟨.backpressure, .suspended⟩]), .startReconnect false]

/-- The connection is lost after ten bytes were accepted of the packet. -/
def lostWithin : List (Event WholeElement) :=
  [.call .sendStart, .call (.send true (element 1 false) []),
    .call (.sendStop none [⟨.sent 10, .suspended⟩]), .startReconnect false]

set_option maxRecDepth 4000 in
theorem starts_on_packet_lostBefore :
    ∃ (c c₁ c₂ : Connection WholeElement) (r r' : TcpReceiveStrategy),
      Run (TcpConnection.create .littleEndian) (StepsOrderly smallPackets) lostBefore c ∧
      StepsOrderly smallPackets c (.finishReconnect true) c₁ ∧
      Run c₁ (StepsOrderly smallPackets) [.call (.performWork ⟨.sent 20, .suspended⟩)] c₂ ∧
      Run (ReceiveStrategy.create .littleEndian)
        (ReceiveChunking.ReceivesReady .littleEndian fun _ => none) ReceiveChunking.shortPieces r.strategy ∧
      r.reset 2 = some r' ∧ OnBoundary smallPackets c₁.sendStrategy c₂.sendStrategy ∧
      ExpectsHeader r'.strategy := by
  have hruns : ((lostBefore.foldlM (proceed smallPackets) (TcpConnection.create .littleEndian)).bind
      fun c => if c.sendStrategy.partlySent then none else
        (proceed smallPackets c (.finishReconnect true)).bind fun c₁ =>
          [Event.call (.performWork ⟨.sent 20, .suspended⟩)].foldlM (proceed smallPackets) c₁).isSome =
      true := by decide
  obtain ⟨c₂, hc₂⟩ := Option.isSome_iff_exists.mp hruns
  obtain ⟨c, hc, hrest⟩ := Option.bind_eq_some_iff.mp hc₂
  split_ifs at hrest with hpartly
  obtain ⟨c₁, hc₁, hlater⟩ := Option.bind_eq_some_iff.mp hrest
  have hreceives : (ReceiveChunking.receiveAll .littleEndian (fun _ => none)
      (ReceiveStrategy.create .littleEndian) ReceiveChunking.shortPieces).isSome = true := by decide
  obtain ⟨r, hr⟩ := Option.isSome_iff_exists.mp hreceives
  have hrun := Run.follow (stepsOrderly_of rfl) .start hc
  have hreconnect := stepsOrderly_of rfl _ _ _ hc₁
  have hrun₂ := Run.follow (stepsOrderly_of rfl) .start hlater
  have hreceived := ReceiveChunking.run_receiveAll .start hr
  have hps : ∀ p ∈ [ReceiveChunking.shortPacket], p.WellFormed .littleEndian := by
    intro p hp
    obtain rfl := List.mem_singleton.mp hp
    exact ReceiveChunking.shortPacket_wellFormed
  have hpieces : ReceiveChunking.shortPieces.flatten =
      PacketParsing.packetsBytes .littleEndian [ReceiveChunking.shortPacket] := by decide
  have hreset : TcpReceiveStrategy.reset 2 ⟨r, some 1⟩ = some ⟨r, some 2⟩ := rfl
  exact ⟨c, c₁, c₂, ⟨r, some 1⟩, ⟨r, some 2⟩, hrun, hreconnect, hrun₂, hreceived, hreset,
    starts_on_packet rfl (by decide) hrun (by simpa using hpartly) hreconnect hrun₂
      [ReceiveChunking.shortPacket] hps hreceived hpieces hreset⟩

theorem transportBytes_head (host : ByteOrder) {h : TransportHeader.Header} (hvalid : h.valid = true) :
    (PacketParsing.transportBytes host h).head? = some 0x44 := by
  have hprotocol : h.protocol = TransportHeader.dcpsProtocol := of_decide_eq_true hvalid
  unfold PacketParsing.transportBytes TransportHeader.Header.octets
  rw [hprotocol]
  cases host <;> rfl

theorem onBoundary_head {later : List (Packet ε)} (h : ∀ p ∈ later, Tracked cfg p) :
    (later.flatMap fun p => p.bytes.take p.accepted) = [] ∨
      (later.flatMap fun p => p.bytes.take p.accepted).head? = some 0x44 := by
  induction later with
  | nil => exact .inl rfl
  | cons p later ih =>
    rw [List.flatMap_cons]
    obtain ⟨header, hvalid, hheader⟩ := (h p (by simp)).header
    cases haccepted : p.accepted with
    | zero =>
      exact ih fun q hq => h q (by simp [hq])
    | succ n =>
      have hhead : p.bytes.head? = some 0x44 := by
        rw [Packet.bytes, List.head?_append, hheader, transportBytes_head cfg.host hvalid]
        rfl
      refine .inr ?_
      cases hbytes : p.bytes with
      | nil =>
        rw [hbytes] at hhead
        cases hhead
      | cons b bytes =>
        rw [hbytes] at hhead
        exact hhead

set_option maxRecDepth 4000 in
/-- The new connection starts in the middle of the header. -/
theorem continues_in_header :
    ∃ c c₁ c₂ : Connection WholeElement,
      Run (TcpConnection.create .littleEndian) (fun c event c' => c.step smallPackets event = some c')
        lostWithin c ∧
      c.step smallPackets (.finishReconnect true) = some c₁ ∧
      c₁.step smallPackets (.call (.performWork ⟨.sent 17, .suspended⟩)) = some c₂ ∧
      ¬ OnBoundary smallPackets c₁.sendStrategy c₂.sendStrategy := by
  obtain ⟨c₂, hc₂, hrest⟩ : ∃ c₂, ((lostWithin.foldlM (Connection.step smallPackets)
      (TcpConnection.create .littleEndian)).bind fun c =>
        (c.step smallPackets (.finishReconnect true)).bind fun c₁ =>
          if c₁.sendStrategy.accepted.length = 10 then
            c₁.step smallPackets (.call (.performWork ⟨.sent 17, .suspended⟩)) else none) = some c₂ ∧
      (c₂.sendStrategy.accepted.drop 10).head? = some 0 :=
    Option.map_eq_some_iff.mp (by decide)
  obtain ⟨c, hc, hbind⟩ := Option.bind_eq_some_iff.mp hc₂
  obtain ⟨c₁, hc₁, hstep⟩ := Option.bind_eq_some_iff.mp hbind
  split_ifs at hstep with hlength
  refine ⟨c, c₁, c₂, Run.follow (fun _ _ _ h => h) .start hc, hc₁, hstep, ?_⟩
  rintro ⟨later, haccepted, hlater⟩
  rw [haccepted, ← hlength, List.drop_left] at hrest
  obtain hnone | hhead := onBoundary_head hlater
  · rw [hnone] at hrest
    cases hrest
  · rw [hhead] at hrest
    cases hrest

end

end OpenDDS.Guarantees.ReconnectBoundary
