import OpenDDS.Guarantees.ElementFates
import OpenDDS.Guarantees.PacketSending

/-!
# The packet that is used was prepared

`perform_work` and `clear` take `header_.length_ > 0` as the sign that a packet is in
`pkt_chain_`. It is also true while a packet is collected: when `perform_work` finds the
strategy suspended then, or `terminate_send` is called, a null chain is used. A packet of
which bytes were sent is prepared again after `resume_send` went back from `MODE_SUSPEND` to
a mode that sends directly. The calls that do not come in these moments are orderly.
-/
namespace OpenDDS.Guarantees.PreparedPackets

open Library Library.Folds Source Source.SendStrategy QueueElement PacketSending
open ElementFates (Performs performs_of smallPackets element)

variable {ε : Type} [QueueElement ε] {cfg : Config} {least : Nat} {s s' : Strategy ε}
  {extra : List ε}

def underWay (s : Strategy ε) : Bool := s.current.any fun p => p.accepted < p.size

/-- Whether elements are collected that are not in the packet under way. -/
def collects (s : Strategy ε) : Bool :=
  (s.current.elim 0 fun p => p.elements.length - (sentOf p).length) < s.elems.length

def fails (answer : Answer) : Bool := answer = .peerLost || answer = .sendError

/-- Whether the attempts come to one in which a packet fails in `MODE_TERMINATED` and `relink`
goes back to this mode. -/
def returns (relink : Bool) : SendMode → List Attempt → Bool
  | _, [] => false
  | mode, attempt :: attempts =>
    if fails attempt.answer && relink then
      match attempt.relink with
      | .resumed => mode = .terminated || returns relink mode attempts
      | .terminated => returns relink .terminated attempts
      | .unchanged | .suspended => false
    else returns relink mode attempts

/-- The calls that find a prepared packet and lead to no second one. -/
def Orderly (cfg : Config) (least : Nat) (s : Strategy ε) : Call ε → Prop
  | .send relink e attempts =>
    Suits cfg least e ∧ (sendsFirst cfg e s = true ∨ cfg.maxMessageSize ≠ 0 →
      returns relink s.mode attempts = false)
  | .performWork attempt =>
    (s.header.length = 0 → cutsWell cfg least s.queue s) ∧
      (s.mode = .suspend → collects s = false ∧
        (fails attempt.answer = true → attempt.relink = .resumed → s.modeBeforeSuspend ≠ .queue →
          s.partlySent = false))
  | .resumeSend =>
    (s.mode = .suspend → s.modeBeforeSuspend ≠ .queue → s.partlySent = false) ∧
      (s.mode = .terminated → s.elems = [])
  | .terminateSend _ => underWay s = true ∨ s.elems = []
  | _ => True

/-- A call that ends well, or does not get the attempts it makes. -/
def Goes {α : Type} (P : α → Prop) : Except Fault α → Prop
  | .ok a => P a
  | .error fault => fault = .unanswered

theorem Goes.imp {α : Type} {P Q : α → Prop} {r : Except Fault α} (h : Goes P r)
    (hall : ∀ a, P a → Q a) : Goes Q r := by
  cases r with
  | error => exact h
  | ok a => exact hall a h

theorem Goes.map {α β : Type} {P : α → Prop} {Q : β → Prop} {r : Except Fault α} {f : α → β}
    (h : Goes P r) (hall : ∀ a, P a → Q (f a)) : Goes Q (r.map f) := by
  cases r with
  | error => exact h
  | ok a => exact hall a h

/-- A packet is in the chain, or none; `extra` is collected for another one. -/
def Holds (s : Strategy ε) (extra : List ε) : Prop :=
  (∃ p sent left, s.current = some p ∧ Chained s p sent left extra) ∨
    (Rests s extra ∧ ∀ p ∈ s.current, p.accepted = p.size)

structure Packs (cfg : Config) (least : Nat) (s : Strategy ε) (extra : List ε) : Prop where
  order : form s.header = form (TransportHeader.create cfg.host)
  holds : Holds s extra
  room : s.header.length.toNat = 0 ∨
    TransportHeader.maxMarshaledSize + s.header.length.toNat ≤ sizeLimit cfg
  suits : ∀ e ∈ s.queue ++ s.elems, Suits cfg least e
  fits : cfg.maxMessageSize = 0 →
    ∀ e ∈ s.queue, TransportHeader.maxMarshaledSize + elementLength e ≤ cfg.maxSize
  recorded : Recorded cfg s

theorem Holds.same (h : Holds s extra) (hsame : SamePacket s s') : Holds s' extra := by
  obtain ⟨p, sent, left, hcurrent, hchained⟩ | ⟨hrests, hall⟩ := h
  · exact .inl ⟨p, sent, left, hsame.current.trans hcurrent, hchained.same hsame⟩
  · refine .inr ⟨⟨hsame.chain.trans hrests.chain, hsame.elems.trans hrests.elems, ?_⟩, ?_⟩
    · rw [hsame.header]
      exact hrests.length
    · rw [hsame.current]
      exact hall

theorem Packs.same (h : Packs cfg least s extra) (hsame : SamePacket s s') : Packs cfg least s' extra where
  order := by
    rw [hsame.header]
    exact h.order
  holds := h.holds.same hsame
  room := by
    rw [hsame.header]
    exact h.room
  suits := by
    rw [hsame.queue, hsame.elems]
    exact h.suits
  fits := by
    rw [hsame.queue]
    exact h.fits
  recorded := h.recorded.same hsame

/-- The mode fits what is in the chain: nothing is collected behind a packet that
`perform_work` continues, and no packet sent in part is there to be prepared again. -/
structure Ready (cfg : Config) (least : Nat) (s : Strategy ε) : Prop where
  stands : Stands s
  packs : ∃ extra, Packs cfg least s extra ∧
    (s.mode = .queue ∨ s.mode = .suspend ∧ s.modeBeforeSuspend = .queue → extra = [])
  fresh : s.mode = .direct ∨ s.mode = .terminated → s.partlySent = false

section

variable {p : Packet ε} {sent left : List ε}

/-- What `send_packet` does to a packet in the chain. -/
structure SendsOn (cfg : Config) (least : Nat) (answer : Answer) (extra : List ε) (s : Strategy ε)
    (outcome : Outcome) (s' : Strategy ε) : Prop where
  setting : SameSetting s s'
  packs : Packs cfg least s' extra
  fails : outcome.fails = PreparedPackets.fails answer
  same : outcome.fails = true → s'.partlySent = s.partlySent ∧ underWay s' = true
  complete : outcome = .completeSend → Rests s' []

theorem partlySent_of_chained (hcurrent : s.current = some p) (h : Chained s p sent left extra)
    (hes : ∀ e ∈ left, Sendable e) :
    s.partlySent = decide (0 < p.accepted) ∧ underWay s = true := by
  obtain ⟨hlt, hchain, -, -⟩ := h.pos hes
  simp [Strategy.partlySent, underWay, hcurrent, hchain, hlt]

theorem partlySent_of_rests (h : Rests s extra) : s.partlySent = false := by
  simp [Strategy.partlySent, h.chain]

section

variable (h : Packs cfg least s extra)
include h

theorem Packs.sendable_left (hchained : Chained s p sent left extra) :
    ∀ e ∈ left ++ extra, Sendable e := by
  intro e he
  exact (h.suits e (by simp only [hchained.elems, List.mem_append] at he ⊢; tauto)).sendable

section

variable (hcurrent : s.current = some p)
include hcurrent

theorem Packs.tracked : Tracked cfg p :=
  h.recorded.packets p (by simp [hcurrent])

theorem hand_packs (hchained : Chained s p sent left extra) :
    Packs cfg least (s.hand cfg) extra ∧ (s.hand cfg).partlySent = s.partlySent ∧
      underWay (s.hand cfg) = true := by
  have hes := h.sendable_left hchained
  have hhand : (s.hand cfg).current = some (handOver cfg s 0 p) := by
    simp [Strategy.hand, hcurrent, handOver]
  have hchained' : Chained (s.hand cfg) (handOver cfg s 0 p) sent left extra :=
    ⟨hchained.elements, hchained.elems, hchained.waiting, hchained.unsent, hchained.bytes,
      hchained.header, hchained.length, hchained.headed⟩
  have hleft : ∀ e ∈ left, Sendable e := fun e he => hes e (by simp [he])
  have htracked := (h.tracked hcurrent).handOver hchained hleft (Nat.zero_le _)
  refine ⟨⟨h.order, .inl ⟨_, sent, left, hhand, hchained'⟩, h.room, h.suits, h.fits,
    h.recorded.accept hcurrent rfl hhand ?_ rfl rfl htracked⟩, ?_, ?_⟩
  · exact (List.append_nil s.accepted).symm
  · rw [(partlySent_of_chained hcurrent hchained hleft).1,
      (partlySent_of_chained hhand hchained' hleft).1]
    rfl
  · exact (partlySent_of_chained hhand hchained' hleft).2

theorem sendsBytes_packs (hchained : Chained s p sent left extra) {n : Nat} {outcome : Outcome}
    {taken left' : List ε} (hsame : SameSetting s s')
    (hn : n ≤ (chainBytes (offered cfg s.pktChain)).length)
    (hsends : SendsBytes cfg n p sent left extra s s' outcome taken left') :
    Packs cfg least s' extra := by
  have hcount : s'.header.length.toNat ≤ s.header.length.toNat := by
    have hlength := hchained.length
    obtain ⟨-, hlt, -, hrest⟩ | ⟨-, -, hrest, -⟩ := hsends.left
    · have hlength' := hrest.length
      simp only [handOver, Packet.size] at hlength hlength'
      omega
    · have hlength' := hrest.length
      omega
  have helems : ∀ e ∈ s'.elems, e ∈ s.elems := by
    intro e he
    rw [hchained.elems, hsends.split]
    obtain ⟨-, -, -, hrest⟩ | ⟨hnil, -, hrest, -⟩ := hsends.left
    · rw [hrest.elems] at he
      simp only [List.mem_append] at he ⊢
      tauto
    · rw [hrest.elems] at he
      simp [he]
  refine ⟨?_, ?_, ?_, ?_, ?_, ?_⟩
  · rw [hsends.header]
    exact h.order
  · obtain ⟨-, -, -, hrest⟩ | ⟨-, hall, hrest, -⟩ := hsends.left
    · exact .inl ⟨_, _, left', hsends.current, hrest⟩
    · refine .inr ⟨hrest, fun q hq => ?_⟩
      rw [hsends.current] at hq
      cases hq
      exact hall
  · have hroom := h.room
    omega
  · intro e he
    rw [hsame.queue] at he
    refine h.suits e ?_
    simp only [List.mem_append] at he ⊢
    exact he.imp id (helems e)
  · rw [hsame.queue]
    exact h.fits
  · have hes : ∀ e ∈ left, Sendable e := fun e he => h.sendable_left hchained e (by simp [he])
    exact h.recorded.accept hcurrent hsends.packets hsends.current hsends.accepted rfl rfl
      ((h.tracked hcurrent).handOver hchained hes hn)

theorem sendPacket_goes (hchained : Chained s p sent left extra) (answer : Answer) :
    Goes (fun r => SendsOn cfg least answer extra s r.1 r.2) (s.sendPacket cfg answer) := by
  have hes := h.sendable_left hchained
  obtain ⟨hhand, hpartly, hunder⟩ := hand_packs h hcurrent hchained
  have hchain := (hchained.pos fun e he => hes e (by simp [he])).2.1
  cases answer with
  | peerLost =>
    rw [Strategy.sendPacket, if_neg hchain]
    exact ⟨hand_setting s, hhand, rfl, fun _ => ⟨hpartly, hunder⟩, nofun⟩
  | sendError =>
    rw [Strategy.sendPacket, if_neg hchain]
    exact ⟨hand_setting s, hhand, rfl, fun _ => ⟨hpartly, hunder⟩, nofun⟩
  | backpressure =>
    rw [Strategy.sendPacket, if_neg hchain]
    exact ⟨hand_setting s, hhand, rfl, nofun, nofun⟩
  | sent n =>
    by_cases hbad : n = 0 ∨ (chainBytes (offered cfg s.pktChain)).length < n
    · rw [Strategy.sendPacket, if_neg hchain]
      simp only [if_pos hbad]
      rfl
    · obtain ⟨outcome, s', taken, left', hsend, hsends⟩ := sendPacket_chained cfg hcurrent hchained
        hes (n := n) (by omega) (by omega)
      have hsame := sendPacket_setting hsend
      rw [hsend]
      refine ⟨hsame, sendsBytes_packs h hcurrent hchained hsame (by omega) hsends, ?_, ?_, ?_⟩
      all_goals obtain ⟨-, -, rfl, -⟩ | ⟨-, -, hrest, rfl⟩ := hsends.left
      · rfl
      · split_ifs <;> rfl
      · nofun
      · split_ifs <;> nofun
      · nofun
      · intro hcomplete
        split_ifs at hcomplete with hnone
        rw [hnone] at hrest
        exact hrest

end

end

end

section

theorem notifications_same (select : ε → Bool) (hrunning : s.transportShutdown = false) :
    SamePacket s (s.sendDelayedNotifications select) := by
  rw [sendDelayedNotifications_eq select hrunning]
  exact ⟨rfl, rfl, rfl, rfl, rfl, rfl, rfl, rfl⟩

omit [QueueElement ε] in
theorem partlySent_same (hsame : SamePacket s s') : s'.partlySent = s.partlySent := by
  simp only [Strategy.partlySent, hsame.chain, hsame.current]

theorem underWay_same (hsame : SamePacket s s') : underWay s' = underWay s := by
  simp only [underWay, hsame.current]

theorem Ready.notifications (h : Ready cfg least s) (select : ε → Bool) :
    Ready cfg least (s.sendDelayedNotifications select) := by
  have hset := sendDelayedNotifications_setting select h.stands.running
  have hsame := notifications_same select h.stands.running
  obtain ⟨extra, hpacks, hextra⟩ := h.packs
  refine ⟨h.stands.same hset, ⟨extra, hpacks.same hsame, ?_⟩, ?_⟩
  · rw [hset.mode, hset.before]
    exact hextra
  · rw [hset.mode, partlySent_same hsame]
    exact h.fresh

/-- What `clear` leaves of the packet. -/
structure GivesUp (s s' : Strategy ε) : Prop where
  setting : SameSetting s s'
  packets : s'.packets = s.packets
  current : s'.current = s.current
  accepted : s'.accepted = s.accepted
  order : form s'.header = form s.header

theorem adjustPacketAfterSend_negative (cfg : Config) (s : Strategy ε) {n : Int} (hn : n < 0) :
    ∃ more s', s.adjustPacketAfterSend cfg n = .ok (more, s') ∧ GivesUp s s' := by
  cases helems : s.elems with
  | nil =>
    refine ⟨decide (s.header.length ≠ 0), s, ?_, .refl s, rfl, rfl, rfl, rfl⟩
    simp only [Strategy.adjustPacketAfterSend, helems]
  | cons e rest =>
    have hpeel := peel_nonpos cfg s.mode s.pktChain
      (p := ⟨s.elems, s.headerComplete, n, 0, tailBase e, s.delayed, []⟩) (Int.le_of_lt hn)
    exact ⟨_, _, adjustPacketAfterSend_eq helems hpeel,
      adjustPacketAfterSend_setting (adjustPacketAfterSend_eq helems hpeel), rfl, rfl, rfl, rfl⟩

theorem clearPacket_goes (h : Packs cfg least s extra) (hunder : underWay s = true ∨ s.elems = []) :
    Goes (GivesUp s) (s.clearPacket cfg) := by
  unfold Strategy.clearPacket
  by_cases hlength : s.header.length ≠ 0
  · rw [if_pos hlength]
    obtain ⟨p, sent, left, hcurrent, hchained⟩ | ⟨hrests, hall⟩ := h.holds
    · have hes : ∀ e ∈ left, Sendable e := fun e he => h.sendable_left hchained e (by simp [he])
      have hpos := hchained.pos hes
      rw [if_neg hpos.2.1]
      obtain hneg | ⟨k, hk, hle⟩ := toInt_le (totalLength s.pktChain)
      · obtain ⟨more, s', hadjust, hgives⟩ := adjustPacketAfterSend_negative cfg s hneg
        rw [hadjust]
        exact hgives
      · have htotal : p.accepted + k ≤ p.size := by
          rw [totalLength, hchained.chain_length] at hle
          omega
        obtain ⟨s', taken, left', hadjust, hdone⟩ := adjust_chained cfg hchained hes
          { p with accepted := p.accepted + k } htotal rfl rfl rfl
        rw [hk, hadjust]
        refine ⟨adjustPacketAfterSend_setting hadjust, hdone.packets, hdone.current, hdone.accepted, ?_⟩
        rw [hdone.header]
        rfl
    · have hidle : underWay s = false := by
        rw [underWay, Option.any_eq_false]
        intro p hp
        have hfull := hall p hp
        simp [hfull]
      rw [hidle] at hunder
      have hnone : extra = [] := hrests.elems.symm.trans (hunder.resolve_left Bool.false_ne_true)
      refine absurd ?_ hlength
      rw [hrests.length_eq_zero, hnone]
      intro e he
      exact (h.suits e (by simp [hrests.elems, he])).sendable
  · rw [if_neg hlength]
    exact ⟨.refl s, rfl, rfl, rfl, rfl⟩

structure Emptied (cfg : Config) (least : Nat) (s : Strategy ε) : Prop where
  ready : Ready cfg least s
  mode : s.mode = .terminated
  length : s.header.length = 0
  elems : s.elems = []

section

variable (h : Stands s) (hpacks : Packs cfg least s extra)
  (hunder : underWay s = true ∨ s.elems = [])
include h hpacks hunder

theorem clear_goes : Goes (Emptied cfg least) (s.clear cfg .terminated) := by
  have hset := sendDelayedNotifications_setting (fun _ => true) h.running
  have hsame := notifications_same (fun _ => true) h.running
  have hpacket := clearPacket_goes (hpacks.same hsame) (by
    rw [underWay_same hsame, hsame.elems]
    exact hunder)
  cases hclear : s.clear cfg .terminated with
  | error fault =>
    unfold Strategy.clear at hclear
    split at hclear
    · next fault' hfault =>
      cases hclear
      rw [hfault] at hpacket
      exact hpacket
    · cases hclear
  | ok s' =>
    obtain ⟨cleared, hcleared, rfl⟩ := clear_cases hclear
    rw [hcleared] at hpacket
    have hsame' := hset.trans hpacket.setting
    refine ⟨⟨⟨hsame'.released.trans h.released, hsame'.shutdown.trans h.running, nofun, nofun⟩,
      ⟨[], ⟨?_, ?_, .inl rfl, nofun, nofun, ?_⟩, fun _ => rfl⟩, fun _ => rfl⟩, rfl, rfl, rfl⟩
    · exact (hpacket.order.trans (by rw [hsame.header])).trans hpacks.order
    · exact .inr ⟨⟨rfl, rfl, rfl⟩, nofun⟩
    · refine hpacks.recorded.leave ?_ rfl (hpacket.accepted.trans hsame.accepted)
      simp only [hpacket.packets, hpacket.current, hsame.packets, hsame.current]

theorem terminateSend_goes (graceful : Bool) :
    Goes (Emptied cfg least) (s.terminateSend cfg graceful) := by
  refine (clear_goes h hpacks hunder).map fun s' hs' => ?_
  split_ifs
  · obtain ⟨⟨hstands, ⟨extra, hpacks, hextra⟩, hfresh⟩, hmode, hlength, helems⟩ := hs'
    exact ⟨⟨⟨hstands.released, hstands.running, hstands.mode, hstands.before⟩,
      ⟨extra, hpacks.same ⟨rfl, rfl, rfl, rfl, rfl, rfl, rfl, rfl⟩, hextra⟩, hfresh⟩, hmode, hlength,
      helems⟩
  · exact hs'

end

theorem Ready.suspendSend (h : Ready cfg least s) : Ready cfg least s.suspendSend := by
  obtain ⟨extra, hpacks, hextra⟩ := h.packs
  unfold Strategy.suspendSend
  split_ifs with hmode
  · exact ⟨⟨h.stands.released, h.stands.running, nofun, fun _ => ⟨h.stands.mode, hmode.2⟩⟩,
      ⟨extra, hpacks.same ⟨rfl, rfl, rfl, rfl, rfl, rfl, rfl, rfl⟩, by
        rintro (hnot | ⟨-, hqueue⟩)
        · cases hnot
        · exact hextra (.inl hqueue)⟩, by simp⟩
  · exact h

theorem Ready.resumeSend (h : Ready cfg least s)
    (hpartly : s.mode = .suspend → s.modeBeforeSuspend ≠ .queue → s.partlySent = false)
    (hnone : s.mode = .terminated → s.elems = []) : Ready cfg least s.resumeSend := by
  obtain ⟨extra, hpacks, hextra⟩ := h.packs
  unfold Strategy.resumeSend
  split_ifs with hterminated hsuspend
  · refine ⟨⟨h.stands.released, h.stands.running, nofun, nofun⟩,
      ⟨[], ⟨hpacks.order, .inr ⟨⟨rfl, hnone hterminated, rfl⟩, nofun⟩, .inl rfl, hpacks.suits,
        hpacks.fits, hpacks.recorded.leave rfl rfl rfl⟩, fun _ => rfl⟩, fun _ => rfl⟩
  · obtain ⟨hset, hnot⟩ := h.stands.before hsuspend
    refine ⟨⟨h.stands.released, h.stands.running, hset, fun hmode => absurd hmode hnot⟩,
      ⟨extra, hpacks.same ⟨rfl, rfl, rfl, rfl, rfl, rfl, rfl, rfl⟩, ?_⟩, ?_⟩
    · rintro (hqueue | ⟨hmode, -⟩)
      · exact hextra (.inr ⟨hsuspend, hqueue⟩)
      · exact absurd hmode hnot
    · intro hmode
      refine hpartly hsuspend fun hqueue => ?_
      simp [hqueue] at hmode
  · exact h

theorem suspendSend_underWay (s : Strategy ε) :
    underWay s.suspendSend = underWay s ∧ s.suspendSend.partlySent = s.partlySent := by
  unfold Strategy.suspendSend
  split_ifs <;> exact ⟨rfl, rfl⟩

theorem relink_goes (h : Ready cfg least s) (hmode : s.mode ≠ .terminated) (hunder : underWay s = true)
    (doSuspend : Bool) (effect : Relink)
    (hpartly : effect = .resumed → s.mode = .suspend → s.modeBeforeSuspend ≠ .queue →
      s.partlySent = false) :
    Goes (Ready cfg least) (s.relink cfg doSuspend effect) := by
  have hsuspended : Ready cfg least (if doSuspend then s.suspendSend else s) := by
    split_ifs
    · exact h.suspendSend
    · exact h
  have hunder' : underWay (if doSuspend then s.suspendSend else s) = true := by
    split_ifs
    · rw [(suspendSend_underWay s).1, hunder]
    · exact hunder
  cases effect with
  | unchanged => exact h
  | suspended => exact hsuspended
  | resumed =>
    refine hsuspended.resumeSend ?_ ?_
    · intro hsuspend hbefore
      by_cases hwas : s.mode = .suspend
      · have hsame : (if doSuspend then s.suspendSend else s) = s := by
          simp [Strategy.suspendSend, hwas]
        rw [hsame] at hbefore ⊢
        exact hpartly rfl hwas hbefore
      · cases doSuspend with
        | false => exact absurd hsuspend hwas
        | true =>
          have hdirect : s.mode = .direct := by
            have hset := h.stands.mode
            simp only [if_true, Strategy.suspendSend, if_pos (And.intro hmode hwas)] at hbefore
            cases hmode' : s.mode <;> simp_all
          exact (suspendSend_underWay s).2.trans (h.fresh (.inl hdirect))
    · intro hterminated
      refine absurd hterminated ?_
      unfold Strategy.suspendSend
      split_ifs <;> simp [hmode]
  | terminated =>
    obtain ⟨extra, hpacks, -⟩ := hsuspended.packs
    exact (terminateSend_goes hsuspended.stands hpacks (.inl hunder') false).imp fun _ hs => hs.ready

end

section

variable {relink : Bool} {attempts : List Attempt} {e : ε}

structure Offers (cfg : Config) (least : Nat) (s : Strategy ε) : Prop where
  stands : Stands s
  packs : Packs cfg least s []
  underWay : underWay s = true
  fresh : s.partlySent = false

/-- How `direct_send` ends, with the attempts that were not made: a strategy that goes on
sending directly has no packet. -/
structure Ends (cfg : Config) (least : Nat) (relink : Bool) (attempts : List Attempt)
    (s : Strategy ε) (rest : List Attempt) (s' : Strategy ε) : Prop where
  ready : Ready cfg least s'
  empty : s'.mode = .direct ∨ s'.mode = .terminated → returns relink s.mode attempts = false →
    s'.header.length = 0 ∧ s'.elems = [] ∧ returns relink s'.mode rest = false

theorem chained_of_underWay (h : Holds s extra) (hunder : underWay s = true) :
    ∃ p sent left, s.current = some p ∧ Chained s p sent left extra := by
  obtain hchained | ⟨-, hall⟩ := h
  · exact hchained
  · obtain ⟨p, hp, hlt⟩ := (Option.any_eq_true _ _).mp hunder
    have hfull := hall p hp
    simp [hfull] at hlt

theorem rests_empty (h : Rests s []) : s.header.length = 0 ∧ s.elems = [] :=
  ⟨(h.length_eq_zero nofun).mpr rfl, h.elems⟩

theorem interrupt_ready (h : Offers cfg least s) (hmode : s.mode = .direct ∨ s.mode = .terminated) :
    Ready cfg least s.interrupt ∧ s.interrupt.mode = .suspend ∧ s.interrupt.modeBeforeSuspend = s.mode ∧
      SamePacket s s.interrupt := by
  have hlive : s.mode ≠ .suspend := by
    intro hsuspend
    simp [hsuspend] at hmode
  have heq : s.interrupt = { s with modeBeforeSuspend := s.mode, mode := .suspend } := if_pos hlive
  rw [heq]
  refine ⟨⟨⟨h.stands.released, h.stands.running, nofun, fun _ => ⟨h.stands.mode, hlive⟩⟩,
    ⟨[], h.packs.same ⟨rfl, rfl, rfl, rfl, rfl, rfl, rfl, rfl⟩, fun _ => rfl⟩, by simp⟩, rfl, rfl,
    rfl, rfl, rfl, rfl, rfl, rfl, rfl, rfl⟩

theorem relink_interrupted (h : Ready cfg least s) (hpacks : Packs cfg least s extra) (hmode : s.mode = .suspend)
    (hunder : underWay s = true) (hfresh : s.partlySent = false) (effect : Relink) :
    Goes (fun s' => Ready cfg least s' ∧ (s'.mode = .suspend ∨
      (effect = .terminated ∧ Emptied cfg least s') ∨
      (effect = .resumed ∧ s'.mode = s.modeBeforeSuspend ∧ SamePacket s s')))
      (s.relink cfg false effect) := by
  cases effect with
  | unchanged => exact ⟨h, .inl hmode⟩
  | suspended => exact ⟨h, .inl hmode⟩
  | resumed =>
    refine ⟨h.resumeSend (fun _ _ => hfresh) (by simp [hmode]), .inr (.inr ⟨rfl, ?_, ?_⟩)⟩
    · simp [Strategy.resumeSend, hmode]
    · simp only [Bool.false_eq_true, if_false, Strategy.resumeSend, hmode, reduceCtorEq, if_true]
      exact ⟨rfl, rfl, rfl, rfl, rfl, rfl, rfl, rfl⟩
  | terminated =>
    exact (terminateSend_goes h.stands hpacks (.inl hunder) false).imp fun s' hs' =>
      ⟨hs'.ready, .inr (.inl ⟨rfl, hs'⟩)⟩

theorem retry_goes {attempt : Attempt} (h : Offers cfg least s) (hfails : fails attempt.answer = true)
    (hmode : s.mode = .direct ∨ s.mode = .terminated)
    (ih : ∀ {s : Strategy ε}, Offers cfg least s → s.mode = .direct ∨ s.mode = .terminated →
      Goes (fun r => Ends cfg least relink attempts s r.1 r.2)
        (directSendLoop cfg relink attempts s)) :
    Goes (fun r => Ends cfg least relink (attempt :: attempts) s r.1 r.2)
      (if relink then
        match s.interrupt.relink cfg false attempt.relink with
        | .error fault => .error fault
        | .ok s =>
          if s.mode = .suspend ∨ s.mode = .terminated then .ok (attempts, s)
          else directSendLoop cfg relink attempts s
      else .ok (attempts, s.interrupt)) := by
  obtain ⟨hready, hsuspend, hbefore, hsame⟩ := interrupt_ready h hmode
  split_ifs with hrelink
  · have hpacks := h.packs.same hsame
    have hrelinks := relink_interrupted hready hpacks hsuspend
      ((underWay_same hsame).trans h.underWay) ((partlySent_same hsame).trans h.fresh) attempt.relink
    have hreturns : returns relink s.mode (attempt :: attempts) = match attempt.relink with
        | .resumed => s.mode = .terminated || returns relink s.mode attempts
        | .terminated => returns relink .terminated attempts
        | .unchanged | .suspended => false := by
      rw [returns, hfails, hrelink]
      rfl
    cases hresult : s.interrupt.relink cfg false attempt.relink with
    | error fault =>
      rw [hresult] at hrelinks
      exact hrelinks
    | ok again =>
      rw [hresult] at hrelinks
      obtain ⟨hagain, hstill | ⟨heffect, hemptied⟩ | ⟨hresumed, hback, hsame'⟩⟩ := hrelinks
      · simp only [hstill, true_or, if_true]
        exact ⟨hagain, by simp [hstill]⟩
      · simp only [hemptied.mode, or_true, if_true]
        refine ⟨hagain, fun _ hnot => ⟨hemptied.length, hemptied.elems, ?_⟩⟩
        rw [hreturns, heffect] at hnot
        rw [hemptied.mode]
        exact hnot
      · rw [hbefore] at hback
        rw [hresumed] at hreturns
        rcases hmode with hdirect | hterminated
        · have hstays : ¬ (again.mode = .suspend ∨ again.mode = .terminated) := by
            simp [hback, hdirect]
          simp only [if_neg hstays]
          have hoffers : Offers cfg least again := ⟨hagain.stands, hpacks.same hsame',
            ((underWay_same hsame').trans (underWay_same hsame)).trans h.underWay,
            ((partlySent_same hsame').trans (partlySent_same hsame)).trans h.fresh⟩
          refine (ih hoffers (.inl (hback.trans hdirect))).imp fun r hr =>
            ⟨hr.ready, fun hlive hnot => hr.empty hlive ?_⟩
          rw [hreturns, Bool.or_eq_false_iff] at hnot
          rw [hback]
          exact hnot.2
        · simp only [hback.trans hterminated, or_true, if_true]
          refine ⟨hagain, fun _ hnot => ?_⟩
          rw [hreturns, hterminated] at hnot
          simp at hnot
  · exact ⟨hready, by simp [hsuspend]⟩

theorem directSendLoop_goes (h : Offers cfg least s)
    (hmode : s.mode = .direct ∨ s.mode = .terminated) :
    Goes (fun r => Ends cfg least relink attempts s r.1 r.2)
      (directSendLoop cfg relink attempts s) := by
  induction attempts generalizing s with
  | nil => rfl
  | cons attempt attempts ih =>
    obtain ⟨p, sent, left, hcurrent, hchained⟩ := chained_of_underWay h.packs.holds h.underWay
    have hgoes := sendPacket_goes h.packs hcurrent hchained attempt.answer
    rw [directSendLoop]
    cases hsend : s.sendPacket cfg attempt.answer with
    | error fault =>
      rw [hsend] at hgoes
      exact hgoes
    | ok result =>
      obtain ⟨outcome, sent⟩ := result
      rw [hsend] at hgoes
      have hstands := h.stands.same hgoes.setting
      have hqueued : Ends cfg least relink (attempt :: attempts) s attempts
          { sent with mode := .queue } :=
        ⟨⟨⟨hstands.released, hstands.running, by simp, by simp⟩,
          ⟨[], hgoes.packs.same ⟨rfl, rfl, rfl, rfl, rfl, rfl, rfl, rfl⟩, fun _ => rfl⟩, by simp⟩, by simp⟩
      have hlive : sent.mode = .direct ∨ sent.mode = .terminated := by
        rw [hgoes.setting.mode]
        exact hmode
      have hoffers (hfails : outcome.fails = true) : Offers cfg least sent :=
        ⟨hstands, hgoes.packs, (hgoes.same hfails).2, (hgoes.same hfails).1.trans h.fresh⟩
      have hends (r : List Attempt × Strategy ε)
          (hr : Ends cfg least relink (attempt :: attempts) sent r.1 r.2) :
          Ends cfg least relink (attempt :: attempts) s r.1 r.2 := by
        have hempty := hr.empty
        rw [hgoes.setting.mode] at hempty
        exact ⟨hr.ready, hempty⟩
      cases outcome with
      | completeSend =>
        have hrests := hgoes.complete rfl
        refine ⟨⟨hstands, ⟨[], hgoes.packs, fun _ => rfl⟩, fun _ => partlySent_of_rests hrests⟩,
          fun _ hnot => ⟨(rests_empty hrests).1, (rests_empty hrests).2, ?_⟩⟩
        have hanswer : fails attempt.answer = false := hgoes.fails.symm
        rw [returns, hanswer] at hnot
        rw [hgoes.setting.mode]
        exact hnot
      | backpressure => exact hqueued
      | partialSend => exact hqueued
      | peerLost => exact (retry_goes (hoffers rfl) hgoes.fails.symm hlive ih).imp hends
      | sendError => exact (retry_goes (hoffers rfl) hgoes.fails.symm hlive ih).imp hends

theorem Packs.length_elems (h : Packs cfg least s extra) (hfresh : s.partlySent = false) :
    s.header.length.toNat = elementsLength s.elems := by
  obtain ⟨p, sent, left, hcurrent, hchained⟩ | ⟨hrests, -⟩ := h.holds
  · have hes : ∀ e ∈ left, Sendable e := fun e he => h.sendable_left hchained e (by simp [he])
    rw [(partlySent_of_chained hcurrent hchained hes).1] at hfresh
    exact hchained.fresh hes (by simpa using hfresh)
  · rw [hrests.length, hrests.elems]

theorem preparePacket_packs (h : Packs cfg least s extra) (hfresh : s.partlySent = false)
    (helems : s.elems ≠ []) :
    Packs cfg least (s.preparePacket cfg) [] ∧ underWay (s.preparePacket cfg) = true ∧
      (s.preparePacket cfg).partlySent = false := by
  have hlength := h.length_elems hfresh
  obtain ⟨p, hp⟩ := preparePacket_chained cfg h.order helems hlength
  have hes : ∀ e ∈ s.elems, Sendable e := fun e he => (h.suits e (by simp [he])).sendable
  obtain ⟨hpartly, hunder⟩ := partlySent_of_chained hp.current hp.chained hes
  exact ⟨⟨h.order, .inl ⟨p, [], s.elems, hp.current, hp.chained⟩, h.room, h.suits, h.fits,
    h.recorded.prepare rfl hp.current rfl hp.accepted (hp.tracked hfresh)⟩, hunder,
    by simp [hpartly, hp.accepted]⟩

theorem directSend_goes (h : Ready cfg least s) (hmode : s.mode = .direct ∨ s.mode = .terminated)
    (helems : s.elems ≠ []) :
    Goes (fun r => Ends cfg least relink attempts s r.1 r.2) (directSend cfg relink attempts s) := by
  obtain ⟨extra, hpacks, -⟩ := h.packs
  obtain ⟨hprepared, hunder, hfresh⟩ := preparePacket_packs hpacks (h.fresh hmode) helems
  have hoffers : Offers cfg least (s.preparePacket cfg) :=
    ⟨h.stands.same (preparePacket_setting s), hprepared, hunder, hfresh⟩
  exact (directSendLoop_goes hoffers hmode).imp fun r hr => ⟨hr.ready, hr.empty⟩

/-- A piece of an element is collected; flags of the header are set before. -/
def collect (header : TransportHeader.Header) (piece : ε) (s : Strategy ε) : Strategy ε :=
  ({ s with header } : Strategy ε).putElement piece

section

variable {header : TransportHeader.Header} {piece : ε}

theorem collect_holds (h : Holds s extra) (hsame : header.length = s.header.length)
    (hroom : s.header.length.toNat + elementLength piece < 2 ^ 32) :
    Holds (collect header piece s) (extra ++ [piece]) := by
  have hlength : (collect header piece s).header.length.toNat =
      s.header.length.toNat + elementLength piece := by
    rw [← hsame] at hroom ⊢
    exact add_toNat hroom
  have hsum : elementsLength (extra ++ [piece]) = elementsLength extra + elementLength piece := by
    simp [elementsLength]
  obtain ⟨p, sent, left, hcurrent, hchained⟩ | ⟨hrests, hall⟩ := h
  · refine .inl ⟨p, sent, left, hcurrent, hchained.elements, ?_, hchained.waiting,
      hchained.unsent, hchained.bytes, hchained.header, ?_, hchained.headed⟩
    · simp only [collect, Strategy.putElement, hchained.elems, List.append_assoc]
    · rw [hlength, hchained.length, hsum, Nat.add_assoc]
  · refine .inr ⟨⟨hrests.chain, ?_, ?_⟩, hall⟩
    · simp only [collect, Strategy.putElement, hrests.elems]
    · rw [hlength, hrests.length, hsum]

variable (hcfg : Roomy cfg least) (hsuits : Suits cfg least piece)
  (hsame : header.length = s.header.length) (horder : form header = form s.header)
  (hroom : TransportHeader.maxMarshaledSize + s.header.length.toNat + elementLength piece ≤
    sizeLimit cfg)
include hcfg hsuits hsame horder hroom

theorem collect_packs (h : Packs cfg least s extra) :
    Packs cfg least (collect header piece s) (extra ++ [piece]) := by
  have hlimit := hcfg.limit_lt
  have hlt : s.header.length.toNat + elementLength piece < 2 ^ 32 := by omega
  have hlength : (collect header piece s).header.length.toNat =
      s.header.length.toNat + elementLength piece := by
    rw [← hsame] at hlt ⊢
    exact add_toNat hlt
  refine ⟨horder.trans h.order, collect_holds h.holds hsame hlt, .inr (by omega), ?_, h.fits,
    h.recorded.kept rfl rfl rfl⟩
  intro x hx
  simp only [collect, Strategy.putElement, List.mem_append, List.mem_singleton] at hx
  rcases hx with hx | hx | rfl
  · exact h.suits x (by simp [hx])
  · exact h.suits x (by simp [hx])
  · exact hsuits

theorem collect_ready (h : Ready cfg least s) (hmode : s.mode = .direct ∨ s.mode = .terminated) :
    Ready cfg least (collect header piece s) := by
  obtain ⟨extra, hpacks, hextra⟩ := h.packs
  refine ⟨⟨h.stands.released, h.stands.running, h.stands.mode, h.stands.before⟩,
    ⟨extra ++ [piece], collect_packs hcfg hsuits hsame horder hroom hpacks, ?_⟩, h.fresh⟩
  rintro (hqueue | ⟨hsuspend, -⟩)
  · have hwas : s.mode = .queue := hqueue
    simp [hwas] at hmode
  · have hwas : s.mode = .suspend := hsuspend
    simp [hwas] at hmode

end

theorem Ready.same (h : Ready cfg least s) (hset : s'.mode = s.mode ∧
    s'.modeBeforeSuspend = s.modeBeforeSuspend ∧ s'.linkReleased = s.linkReleased ∧
    s'.transportShutdown = s.transportShutdown) (hsame : SamePacket s s') : Ready cfg least s' := by
  obtain ⟨hmode, hbefore, hreleased, hshutdown⟩ := hset
  obtain ⟨extra, hpacks, hextra⟩ := h.packs
  refine ⟨⟨hreleased.trans h.stands.released, hshutdown.trans h.stands.running, ?_, ?_⟩,
    ⟨extra, hpacks.same hsame, ?_⟩, ?_⟩
  · rw [hmode]
    exact h.stands.mode
  · rw [hmode, hbefore]
    exact h.stands.before
  · rw [hmode, hbefore]
    exact hextra
  · rw [hmode, partlySent_same hsame]
    exact h.fresh

theorem Ready.dataDropped (h : Ready cfg least s) (e : ε) : Ready cfg least (s.dataDropped e) :=
  h.same ⟨rfl, rfl, rfl, rfl⟩ ⟨rfl, rfl, rfl, rfl, rfl, rfl, rfl, rfl⟩

theorem Packs.queue (h : Packs cfg least s extra) (he : Suits cfg least e)
    (hfits : cfg.maxMessageSize = 0 →
      TransportHeader.maxMarshaledSize + elementLength e ≤ cfg.maxSize) :
    Packs cfg least { s with queue := s.queue ++ [e] } extra := by
  refine ⟨h.order, ?_, h.room, ?_, ?_, h.recorded.kept rfl rfl rfl⟩
  · obtain ⟨p, sent, left, hcurrent, hchained⟩ | ⟨hrests, hall⟩ := h.holds
    · exact .inl ⟨p, sent, left, hcurrent, hchained.elements, hchained.elems, hchained.waiting,
        hchained.unsent, hchained.bytes, hchained.header, hchained.length, hchained.headed⟩
    · exact .inr ⟨⟨hrests.chain, hrests.elems, hrests.length⟩, hall⟩
  · intro x hx
    simp only [List.mem_append, List.mem_singleton] at hx
    rcases hx with (hx | rfl) | hx
    · exact h.suits x (by simp [hx])
    · exact he
    · exact h.suits x (by simp [hx])
  · intro hsize x hx
    simp only [List.mem_append, List.mem_singleton] at hx
    rcases hx with hx | rfl
    · exact h.fits hsize x hx
    · exact hfits hsize

theorem Ready.queue (h : Ready cfg least s) (he : Suits cfg least e)
    (hfits : cfg.maxMessageSize = 0 →
      TransportHeader.maxMarshaledSize + elementLength e ≤ cfg.maxSize) :
    Ready cfg least { s with queue := s.queue ++ [e] } := by
  obtain ⟨extra, hpacks, hextra⟩ := h.packs
  exact ⟨⟨h.stands.released, h.stands.running, h.stands.mode, h.stands.before⟩,
    ⟨extra, hpacks.queue he hfits, hextra⟩, h.fresh⟩

theorem Packs.length_eq_zero (h : Packs cfg least s extra) (hnone : s.elems = []) :
    s.header.length.toNat = 0 := by
  obtain ⟨p, sent, left, hcurrent, hchained⟩ | ⟨hrests, -⟩ := h.holds
  · have hleft := hchained.elems
    rw [hnone] at hleft
    exact absurd (List.append_eq_nil_iff.mp hleft.symm).1 hchained.waiting
  · rw [hrests.length, ← hrests.elems, hnone]
    rfl

/-- There is room for an element, or for the least part of it. -/
def RoomFor (cfg : Config) (least : Nat) (s : Strategy ε) (e : ε) : Prop :=
  TransportHeader.maxMarshaledSize + s.header.length.toNat +
    (if cfg.maxMessageSize = 0 then elementLength e else least) ≤ sizeLimit cfg

/-- What `send` needs in a packet for an element. -/
def spaceNeeded (cfg : Config) (e : ε) : Nat :=
  if cfg.maxMessageSize > 0 then DataSampleHeader.maxMarshaledSize + minFrag else elementLength e

theorem sendsFirst_iff : sendsFirst cfg e s = true ↔
    requiresExclusivePacket e = true ∧ s.elems ≠ [] ∨ s.spaceAvailable cfg < spaceNeeded cfg e := by
  simp [sendsFirst, spaceNeeded]

theorem roomFor_empty (hcfg : Roomy cfg least) (hzero : s.header.length = 0)
    (hfits : cfg.maxMessageSize = 0 →
      TransportHeader.maxMarshaledSize + elementLength e ≤ cfg.maxSize) : RoomFor cfg least s e := by
  have hleast := hcfg.least
  have hroom := hcfg.room
  unfold RoomFor
  rw [hzero]
  unfold sizeLimit at *
  split_ifs with hsize
  · simpa using hfits hsize
  · have hbound := hroom hsize
    rw [if_neg hsize] at hbound
    simp only [BitVec.toNat_zero, BitVec.ofNat_eq_ofNat]
    omega

section

variable (hcfg : Roomy cfg least) (h : Packs cfg least s extra)
  (hfits : cfg.maxMessageSize = 0 →
    TransportHeader.maxMarshaledSize + elementLength e ≤ cfg.maxSize)
include hcfg h hfits

theorem roomFor_space (hspace : spaceNeeded cfg e ≤ s.spaceAvailable cfg) :
    RoomFor cfg least s e := by
  by_cases hzero : s.header.length.toNat = 0
  · refine roomFor_empty hcfg ?_ hfits
    rw [← BitVec.toNat_inj, hzero]
    rfl
  · have hleast := hcfg.least
    have hroom : TransportHeader.maxMarshaledSize + s.header.length.toNat ≤ sizeLimit cfg :=
      h.room.resolve_left hzero
    rw [spaceAvailable_eq hroom] at hspace
    unfold RoomFor
    unfold spaceNeeded at hspace
    split_ifs at * <;> omega

theorem sendsFirst_elems (hfirst : sendsFirst cfg e s = true) : s.elems ≠ [] := by
  intro hnone
  obtain ⟨-, hsome⟩ | hspace := sendsFirst_iff.mp hfirst
  · exact hsome hnone
  · have hzero := h.length_eq_zero hnone
    have hroom := hcfg.room
    have hlimit : TransportHeader.maxMarshaledSize + spaceNeeded cfg e ≤ sizeLimit cfg := by
      unfold spaceNeeded
      split_ifs with hsize
      · exact hroom (by omega)
      · have hsame : sizeLimit cfg = cfg.maxSize := if_pos (by omega)
        rw [hsame]
        exact hfits (by omega)
    rw [spaceAvailable_eq (by omega)] at hspace
    omega

end

theorem nextPiece_none (hsize : cfg.maxMessageSize = 0) {firstPkt : Bool} :
    nextPiece cfg firstPkt none e s =
      (e, none, { s with header := { s.header with lastFragment := false } }) := by
  simp [nextPiece, hsize]

theorem nextPiece_limited (hsize : cfg.maxMessageSize ≠ 0) (firstPkt : Bool) (next : Option ε) (e : ε)
    (s : Strategy ε) :
    ∃ header : TransportHeader.Header, header.length = s.header.length ∧
      form header = form s.header ∧
      nextPiece cfg firstPkt next e s =
        if elementLength (next.getD e) > s.spaceAvailable cfg then
          ((fragment (next.getD e) (s.spaceAvailable cfg)).1,
            some (fragment (next.getD e) (s.spaceAvailable cfg)).2, { s with header })
        else (next.getD e, none, { s with header }) := by
  have hspace : ∀ header : TransportHeader.Header, header.length = s.header.length →
      ({ s with header } : Strategy ε).spaceAvailable cfg = s.spaceAvailable cfg := by
    intro header hsame
    simp only [Strategy.spaceAvailable, hsame]
  cases next with
  | none =>
    by_cases hlarge : elementLength e > s.spaceAvailable cfg
    · refine ⟨{ s.header with lastFragment := false, firstFragment := firstPkt }, rfl, rfl, ?_⟩
      simp [nextPiece, hsize, hspace, hlarge]
    · refine ⟨{ s.header with lastFragment := false }, rfl, rfl, ?_⟩
      simp [nextPiece, hsize, hspace, hlarge]
  | some x =>
    by_cases hlarge : elementLength x > s.spaceAvailable cfg
    · refine ⟨{ s.header with lastFragment := false, firstFragment := firstPkt }, rfl, rfl, ?_⟩
      simp [nextPiece, hsize, hspace, hlarge]
    · refine ⟨{ s.header with lastFragment := true, firstFragment := false }, rfl, rfl, ?_⟩
      simp [nextPiece, hsize, hspace, hlarge]

theorem nextPiece_spec (firstPkt : Bool) {next : Option ε} (hsuits : Suits cfg least (next.getD e))
    (hwhole : cfg.maxMessageSize = 0 → next = none) (hroom : RoomFor cfg least s (next.getD e)) :
    ∃ piece next' header, nextPiece cfg firstPkt next e s = (piece, next', { s with header }) ∧
      header.length = s.header.length ∧ form header = form s.header ∧
      Suits cfg least piece ∧ (∀ x ∈ next', Suits cfg least x) ∧
      (cfg.maxMessageSize = 0 → piece = next.getD e ∧ next' = none) ∧
      TransportHeader.maxMarshaledSize + s.header.length.toNat + elementLength piece ≤
        sizeLimit cfg := by
  unfold RoomFor at hroom
  by_cases hsize : cfg.maxMessageSize = 0
  · obtain rfl := hwhole hsize
    rw [if_pos hsize] at hroom
    exact ⟨e, none, { s.header with lastFragment := false }, nextPiece_none hsize, rfl, rfl, hsuits,
      nofun, fun _ => ⟨rfl, rfl⟩, hroom⟩
  · rw [if_neg hsize] at hroom
    have hused : TransportHeader.maxMarshaledSize + s.header.length.toNat ≤ sizeLimit cfg := by omega
    have hspace := spaceAvailable_eq hused
    obtain ⟨header, hlength, horder, heq⟩ := nextPiece_limited hsize firstPkt next e s
    by_cases hlarge : elementLength (next.getD e) > s.spaceAvailable cfg
    · obtain ⟨hhead, hle⟩ := hsuits.head hsize (n := s.spaceAvailable cfg) (by omega) hlarge
      have htail := hsuits.tail hsize (n := s.spaceAvailable cfg) (by omega) hlarge
      rw [if_pos hlarge] at heq
      exact ⟨_, _, header, heq, hlength, horder, hhead, fun x hx => Option.some.inj hx ▸ htail,
        fun h => absurd h hsize, by omega⟩
    · rw [if_neg hlarge] at heq
      exact ⟨_, none, header, heq, hlength, horder, hsuits, nofun, fun _ => ⟨rfl, rfl⟩, by omega⟩

theorem appendLoop_goes (hcfg : Roomy cfg least) (exclusive : Bool) {fuel : Nat} {firstPkt : Bool}
    (next : Option ε) (h : Ready cfg least s) (hsuits : Suits cfg least (next.getD e))
    (hwhole : cfg.maxMessageSize = 0 → next = none)
    (hreturns : cfg.maxMessageSize ≠ 0 → s.mode = .direct ∨ s.mode = .terminated →
      returns relink s.mode attempts = false)
    (hroom : s.mode = .direct ∨ s.mode = .terminated → firstPkt = true ∨ next.isSome = true →
      RoomFor cfg least s (next.getD e)) :
    Goes (Ready cfg least) (appendLoop cfg relink exclusive fuel firstPkt next e attempts s) := by
  induction fuel generalizing firstPkt next e attempts s with
  | zero => rfl
  | succ fuel ih =>
    rw [appendLoop]
    by_cases henter : (firstPkt = true ∨ next.isSome = true) ∧
        (s.mode = .direct ∨ s.mode = .terminated)
    · obtain ⟨piece, next', header, heq, hlength, horder, hpiece, hnext, hnone, hfits⟩ :=
        nextPiece_spec firstPkt hsuits hwhole (hroom henter.2 henter.1)
      rw [if_pos henter, heq]
      simp only
      have hready := collect_ready hcfg hpiece hlength horder hfits h henter.2
      split_ifs with hfull
      · have hsend : Goes (fun r => Ends cfg least relink attempts (collect header piece s) r.1 r.2)
            (directSend cfg relink attempts (collect header piece s)) :=
          directSend_goes hready henter.2 (by simp [collect, Strategy.putElement])
        split
        · next fault hresult =>
          rw [show directSend cfg relink attempts (collect header piece s) = _ from hresult] at hsend
          exact hsend
        · next rest ready hresult =>
          rw [show directSend cfg relink attempts (collect header piece s) = _ from hresult] at hsend
          have hempty : cfg.maxMessageSize ≠ 0 → ready.mode = .direct ∨ ready.mode = .terminated →
              ready.header.length = 0 ∧ ready.elems = [] ∧ returns relink ready.mode rest = false :=
            fun hsize hlive => hsend.empty hlive (hreturns hsize henter.2)
          cases next' with
          | none =>
            exact ih none hsend.ready hpiece (fun _ => rfl)
              (fun hsize hlive => (hempty hsize hlive).2.2) (by simp)
          | some x =>
            have hsize : cfg.maxMessageSize ≠ 0 := fun hzero => by simpa using (hnone hzero).2
            have hx := hnext x rfl
            have hlimit : cfg.maxMessageSize = 0 →
              TransportHeader.maxMarshaledSize + elementLength x ≤ cfg.maxSize := fun h => absurd h hsize
            split_ifs with hdirect hqueue
            · exact ih (some x) hsend.ready hx (fun h => absurd h hsize)
                (fun _ hlive => (hempty hsize hlive).2.2)
                fun hlive _ => roomFor_empty hcfg (hempty hsize hlive).1 hlimit
            · exact ih (some x) (hsend.ready.queue hx hlimit) hx (fun h => absurd h hsize)
                (by simp [hqueue]) (by simp [hqueue])
            · exact ih (some x) (hsend.ready.dataDropped x) hx (fun h => absurd h hsize)
                (fun _ hlive => (hempty hsize hlive).2.2)
                fun hlive _ => roomFor_empty hcfg (hempty hsize hlive).1 hlimit
      · obtain rfl : next' = none := by
          cases next' with
          | none => rfl
          | some x => simp [looksFull] at hfull
        exact ih none hready hpiece (fun _ => rfl) (fun hsize _ => hreturns hsize henter.2) (by simp)
    · rw [if_neg henter]
      exact h

theorem send_goes (hcfg : Roomy cfg least) (h : Ready cfg least s)
    (horderly : Orderly cfg least s (.send relink e attempts)) :
    Goes (Ready cfg least) (s.send cfg relink e attempts) := by
  obtain ⟨he, hreturns⟩ := horderly
  obtain ⟨extra, hpacks, hextra⟩ := h.packs
  unfold Strategy.send
  rw [if_neg (by simp [h.stands.released])]
  split_ifs with hlost hlarge hqueue hfirst
  · exact h.dataDropped e
  · exact h
  · exact h.queue he fun hsize => by omega
  · have hfits : cfg.maxMessageSize = 0 →
        TransportHeader.maxMarshaledSize + elementLength e ≤ cfg.maxSize := fun hsize => by omega
    have hmode := h.stands.directly hqueue
    have hsend : Goes (fun r => Ends cfg least relink attempts s r.1 r.2)
        (directSend cfg relink attempts s) :=
      directSend_goes h hmode (sendsFirst_elems hcfg hpacks hfits hfirst)
    cases hresult : directSend cfg relink attempts s with
    | error fault =>
      rw [hresult] at hsend
      exact hsend
    | ok result =>
      rw [hresult] at hsend
      simp only
      split_ifs with hnow
      · exact hsend.ready.queue he hfits
      · refine (appendLoop_goes hcfg _ none hsend.ready he (fun _ => rfl) ?_ ?_).map
          fun s' hs' => hs'.notifications _
        · intro _ hlive
          exact (hsend.empty hlive (hreturns (.inl hfirst))).2.2
        · intro hlive _
          exact roomFor_empty hcfg (hsend.empty hlive (hreturns (.inl hfirst))).1 hfits
  · have hfits : cfg.maxMessageSize = 0 →
        TransportHeader.maxMarshaledSize + elementLength e ≤ cfg.maxSize := fun hsize => by omega
    have hspace : spaceNeeded cfg e ≤ s.spaceAvailable cfg := by
      by_contra hnot
      exact hfirst (sendsFirst_iff.mpr (.inr (Nat.lt_of_not_le hnot)))
    refine (appendLoop_goes hcfg _ none h he (fun _ => rfl) ?_ ?_).map
      fun s' hs' => hs'.notifications _
    · exact fun hsize _ => hreturns (.inr hsize)
    · exact fun _ _ => roomFor_space hcfg hpacks hfits hspace

theorem sendStop_goes (h : Ready cfg least s) (repoId : Option Nat) :
    Goes (Ready cfg least) (s.sendStop cfg repoId attempts) := by
  have hcounted : Ready cfg least { s with startCounter := s.startCounter - 1 } :=
    h.same ⟨rfl, rfl, rfl, rfl⟩ ⟨rfl, rfl, rfl, rfl, rfl, rfl, rfl, rfl⟩
  unfold Strategy.sendStop
  simp only
  split_ifs with hclosed hmore hlost hqueue hany
  · exact h
  · exact hcounted
  · exact hcounted
  · exact hcounted
  · have hsend : Goes (fun r => Ready cfg least r.2) (directSend cfg true attempts _) :=
      (directSend_goes hcounted (h.stands.directly hqueue) hany.2).imp fun r hr => hr.ready
    exact (hsend.map fun r hr => hr).map fun s' hs' => hs'.notifications _
  · exact hcounted.notifications _

end

section

theorem workPacket_continued (h : Packs cfg least s extra) (hnone : extra = [])
    (hlength : s.header.length ≠ 0) : Packs cfg least s [] ∧ underWay s = true := by
  subst hnone
  obtain ⟨p, sent, left, hcurrent, hchained⟩ | ⟨hrests, -⟩ := h.holds
  · exact ⟨h, (partlySent_of_chained hcurrent hchained fun e he =>
      h.sendable_left hchained e (by simp [he])).2⟩
  · exact absurd (rests_empty hrests).1 hlength

theorem extra_of_collects (h : Packs cfg least s extra) (hcollects : collects s = false) : extra = [] := by
  have hle := Nat.le_of_not_lt (of_decide_eq_false hcollects)
  obtain ⟨p, sent, left, hcurrent, hchained⟩ | ⟨hrests, hall⟩ := h.holds
  · have hsent := hchained.sentOf_eq fun e he => h.sendable_left hchained e (by simp [he])
    rw [hcurrent, hchained.elems] at hle
    simp only [Option.elim_some, hsent, hchained.elements, List.length_append] at hle
    exact List.length_eq_zero_iff.mp (by omega)
  · rw [hrests.elems] at hle
    cases hcurrent : s.current with
    | none =>
      rw [hcurrent] at hle
      exact List.length_eq_zero_iff.mp (by simpa using hle)
    | some p =>
      have hfull := hall p hcurrent
      rw [hcurrent] at hle
      simp only [Option.elim_some, sentOf_full hfull] at hle
      exact List.length_eq_zero_iff.mp (by omega)

theorem Packs.rests (h : Packs cfg least s extra) (hlength : s.header.length = 0) :
    Rests s [] ∧ ∀ p ∈ s.current, p.accepted = p.size := by
  obtain ⟨p, sent, left, hcurrent, hchained⟩ | ⟨hrests, hall⟩ := h.holds
  · have hpos := (hchained.pos fun e he => h.sendable_left hchained e (by simp [he])).2.2.2
    have hcount := hchained.length
    rw [hlength] at hcount
    simp at hcount
    omega
  · have hnone : extra = [] := (hrests.length_eq_zero fun e he =>
      (h.suits e (by simp [hrests.elems, he])).sendable).mp hlength
    exact ⟨hnone ▸ hrests, hall⟩

theorem Ready.direct (hstands : Stands s) (hpacks : Packs cfg least s extra) (hrests : Rests s []) :
    Ready cfg least { s with mode := .direct } :=
  ⟨⟨hstands.released, hstands.running, nofun, nofun⟩,
    ⟨extra, hpacks.same ⟨rfl, rfl, rfl, rfl, rfl, rfl, rfl, rfl⟩, by simp⟩,
    fun _ => (partlySent_of_rests hrests : s.partlySent = false)⟩

structure Filled (cfg : Config) (least : Nat) (s s' : Strategy ε) (taken : List ε) : Prop where
  gathers : Gathers cfg least s.queue s s' taken
  some : taken ≠ []
  packs : Packs cfg least s' taken
  rests : Rests s' taken
  full : ∀ p ∈ s'.current, p.accepted = p.size

section

variable (hcfg : Roomy cfg least) (h : Packs cfg least s extra) (hlength : s.header.length = 0)
  (hqueue : s.queue ≠ []) (hcuts : cutsWell cfg least s.queue s)
include hcfg h hlength hqueue hcuts

theorem getPacketElems_filled :
    ∃ taken, Filled cfg least s (getPacketElems cfg s.queue s) taken := by
  obtain ⟨hrests, hall⟩ := h.rests hlength
  have hsuits : ∀ e ∈ s.queue, Suits cfg least e := fun e he => h.suits e (by simp [he])
  obtain ⟨e, later, hfirst⟩ := List.exists_cons_of_ne_nil hqueue
  have hzero : s.header.length.toNat = 0 := by rw [hlength]; rfl
  have hroom : TransportHeader.maxMarshaledSize + s.header.length.toNat ≤ sizeLimit cfg := by
    have hfits := h.fits
    have hlimit := hcfg.room
    by_cases hsize : cfg.maxMessageSize = 0
    · have hfirstFits := hfits hsize e (by simp [hfirst])
      have hsame : sizeLimit cfg = cfg.maxSize := if_pos hsize
      omega
    · omega
  obtain ⟨taken, hgathers⟩ := getPacketElems_gathers hcfg s.queue s hsuits hcuts hroom
  have hspace := spaceAvailable_eq hroom
  have htaken : taken ≠ [] := by
    refine hgathers.some hrests.elems e (by simp [hfirst]) fun hsize => ?_
    have hfirstFits := h.fits hsize e (by simp [hfirst])
    have hsame : sizeLimit cfg = cfg.maxSize := if_pos hsize
    omega
  have helems : (getPacketElems cfg s.queue s).elems = taken := by
    rw [hgathers.eq, hrests.elems]
    rfl
  have hsame : (getPacketElems cfg s.queue s).pktChain = s.pktChain ∧
      (getPacketElems cfg s.queue s).current = s.current ∧
      (getPacketElems cfg s.queue s).packets = s.packets ∧
      (getPacketElems cfg s.queue s).accepted = s.accepted := by
    rw [hgathers.eq]
    exact ⟨rfl, rfl, rfl, rfl⟩
  have hfilled : Rests (getPacketElems cfg s.queue s) taken :=
    ⟨hsame.1.trans hrests.chain, helems, by rw [hgathers.length, hzero, Nat.zero_add]⟩
  have hfull : ∀ p ∈ (getPacketElems cfg s.queue s).current, p.accepted = p.size := by
    rw [hsame.2.1]
    exact hall
  refine ⟨taken, hgathers, htaken, ⟨hgathers.order.trans h.order, .inr ⟨hfilled, hfull⟩,
    hgathers.room, ?_, ?_, h.recorded.kept hsame.2.2.1 hsame.2.1 hsame.2.2.2⟩, hfilled, hfull⟩
  · rw [helems]
    exact hgathers.suits
  · intro hsize x hx
    refine h.fits hsize x ?_
    rw [hgathers.whole hsize]
    exact List.mem_append_right taken hx

theorem workPacket_gathered :
    Packs cfg least ((getPacketElems cfg s.queue s).preparePacket cfg) [] ∧
      underWay ((getPacketElems cfg s.queue s).preparePacket cfg) = true ∧
      ((getPacketElems cfg s.queue s).preparePacket cfg).partlySent = false := by
  obtain ⟨taken, hfilled⟩ := getPacketElems_filled hcfg h hlength hqueue hcuts
  refine preparePacket_packs hfilled.packs (partlySent_of_rests hfilled.rests) ?_
  rw [hfilled.rests.elems]
  exact hfilled.some

end

theorem workPacket_packs (hcfg : Roomy cfg least) (h : Ready cfg least s)
    (hmode : s.mode = .queue ∨ s.mode = .suspend)
    (hcuts : s.header.length = 0 → cutsWell cfg least s.queue s)
    (hcollects : s.mode = .suspend → collects s = false)
    (hwork : ¬ (s.header.length = 0 ∧ s.queue = [])) :
    Packs cfg least (s.workPacket cfg) [] ∧ underWay (s.workPacket cfg) = true ∧
      (s.partlySent = false → (s.workPacket cfg).partlySent = false) := by
  obtain ⟨extra, hpacks, hextra⟩ := h.packs
  unfold Strategy.workPacket
  split_ifs with hlength
  · obtain ⟨hgathered, hunder, hfresh⟩ := workPacket_gathered hcfg hpacks hlength
      (fun hnone => hwork ⟨hlength, hnone⟩) (hcuts hlength)
    exact ⟨hgathered, hunder, fun _ => hfresh⟩
  · have hnone : extra = [] := by
      rcases hmode with hqueue | hsuspend
      · exact hextra (.inl hqueue)
      · exact extra_of_collects hpacks (hcollects hsuspend)
    obtain ⟨hpacks', hunder⟩ := workPacket_continued hpacks hnone hlength
    exact ⟨hpacks', hunder, id⟩

theorem performWork_goes (hcfg : Roomy cfg least) (h : Ready cfg least s) {attempt : Attempt}
    (horderly : Orderly cfg least s (.performWork attempt)) :
    Goes (fun r => Ready cfg least r.2) (s.performWork cfg attempt) := by
  unfold Strategy.performWork
  by_cases hterminated : s.mode = .terminated
  · rw [if_pos hterminated]
    exact h
  rw [if_neg hterminated]
  by_cases hidle : s.mode ≠ .queue ∧ s.mode ≠ .suspend
  · rw [if_pos hidle]
    exact h
  rw [if_neg hidle]
  have hmode : s.mode = .queue ∨ s.mode = .suspend := by tauto
  by_cases hdrained : s.header.length = 0 ∧ s.queue = []
  · rw [if_pos hdrained]
    obtain ⟨extra, hpacks, -⟩ := h.packs
    exact .direct h.stands hpacks (hpacks.rests hdrained.1).1
  rw [if_neg hdrained]
  obtain ⟨hpacks, hunder, hfresh⟩ := workPacket_packs hcfg h hmode horderly.1
    (fun hsuspend => (horderly.2 hsuspend).1) hdrained
  obtain ⟨hsetMode, hsetBefore, hreleased, hrunning⟩ := workPacket_setting cfg s
  obtain ⟨p, sent, left, hcurrent, hchained⟩ := chained_of_underWay hpacks.holds hunder
  have hgoes := sendPacket_goes hpacks hcurrent hchained attempt.answer
  dsimp only
  split
  · next fault hsend =>
    rw [show (s.workPacket cfg).sendPacket cfg attempt.answer = _ from hsend] at hgoes
    exact hgoes
  · next outcome sent hsend =>
    rw [show (s.workPacket cfg).sendPacket cfg attempt.answer = _ from hsend] at hgoes
    have hsame : sent.mode = s.mode ∧ sent.modeBeforeSuspend = s.modeBeforeSuspend :=
      ⟨hgoes.setting.mode.trans hsetMode, hgoes.setting.before.trans hsetBefore⟩
    have hsent : Ready cfg least sent := by
      refine ⟨⟨(hgoes.setting.released.trans hreleased).trans h.stands.released,
        (hgoes.setting.shutdown.trans hrunning).trans h.stands.running, ?_, ?_⟩,
        ⟨[], hgoes.packs, fun _ => rfl⟩, fun hlive => ?_⟩
      · rw [hsame.1]
        exact h.stands.mode
      · rw [hsame.1, hsame.2]
        exact h.stands.before
      · rw [hsame.1] at hlive
        rcases hmode with hmode | hmode <;> simp [hmode] at hlive
    by_cases hdone : outcome = .completeSend ∧ sent.queue = []
    · have hdirect : Ready cfg least { sent with mode := .direct } :=
        .direct hsent.stands hgoes.packs (hgoes.complete hdone.1)
      have hempty : sent.queue.isEmpty = true := by simp [hdone.2]
      have hnotified := hdirect.notifications fun _ => true
      simp only [hdone.1, hempty, decide_true, Bool.and_self, if_true]
      exact hnotified
    · have hmore : (decide (outcome = .completeSend) && sent.queue.isEmpty) = false := by
        simpa using hdone
      simp only [hmore, Bool.false_eq_true, if_false]
      have hnotified := hsent.notifications fun _ => true
      have hset := sendDelayedNotifications_setting (fun _ : ε => true) hsent.stands.running
      have hpacket := notifications_same (fun _ : ε => true) hsent.stands.running
      split_ifs with hfails hback
      · have hfailed : outcome.fails = true := by simpa [Outcome.fails] using hfails
        obtain ⟨hpartly, hunder'⟩ := hgoes.same hfailed
        have hrelink := relink_goes hnotified (by
            rw [hset.mode, hsame.1]
            exact hterminated) ((underWay_same hpacket).trans hunder') true attempt.relink (by
          intro hresumed hsuspend hbefore
          rw [hset.mode, hsame.1] at hsuspend
          rw [hset.before, hsame.2] at hbefore
          rw [partlySent_same hpacket, hpartly]
          exact hfresh ((horderly.2 hsuspend).2 (hgoes.fails.symm.trans hfailed) hresumed hbefore))
        cases hresult : (sent.sendDelayedNotifications fun _ => true).relink cfg true
            attempt.relink with
        | error fault =>
          rw [hresult] at hrelink
          exact hrelink
        | ok final =>
          rw [hresult] at hrelink
          simp only
          split_ifs <;> exact hrelink
      · exact hnotified
      · exact hnotified

end

section

variable {calls : List (Call ε)}

theorem perform_goes (hcfg : Roomy cfg least) (h : Ready cfg least s) {call : Call ε}
    (horderly : Orderly cfg least s call) : Goes (Ready cfg least) (s.perform cfg call) := by
  cases call with
  | sendStart =>
    refine h.same ?_ ?_
    · unfold Strategy.sendStart
      split_ifs <;> exact ⟨rfl, rfl, rfl, rfl⟩
    · unfold Strategy.sendStart
      split_ifs <;> exact ⟨rfl, rfl, rfl, rfl, rfl, rfl, rfl, rfl⟩
  | send relink e attempts => exact send_goes hcfg h horderly
  | sendStop repoId attempts => exact sendStop_goes h repoId
  | performWork attempt => exact (performWork_goes hcfg h horderly).map fun _ hr => hr
  | suspendSend => exact h.suspendSend
  | resumeSend => exact h.resumeSend horderly.1 horderly.2
  | terminateSend graceful =>
    obtain ⟨extra, hpacks, -⟩ := h.packs
    exact (terminateSend_goes h.stands hpacks horderly graceful).imp fun _ hs => hs.ready

def PerformsOrderly (cfg : Config) (least : Nat) (s : Strategy ε) (call : Call ε)
    (s' : Strategy ε) : Prop :=
  Performs cfg s call s' ∧ Orderly cfg least s call

theorem create_ready (cfg : Config) (least : Nat) : Ready cfg least (create cfg.host : Strategy ε) :=
  ⟨⟨rfl, rfl, nofun, nofun⟩, ⟨[], ⟨rfl, .inr ⟨⟨rfl, rfl, rfl⟩, nofun⟩, .inl rfl, nofun, nofun,
    ⟨nofun, rfl⟩⟩, fun _ => rfl⟩, fun _ => rfl⟩

theorem run_ready (hcfg : Roomy cfg least)
    (hrun : Run (create cfg.host) (PerformsOrderly cfg least) calls s) : Ready cfg least s := by
  refine hrun.invariant (Ready cfg least) (create_ready cfg least) ?_
  rintro s call s' hready ⟨hperform, horderly⟩
  have hgoes := perform_goes hcfg hready horderly
  rw [show s.perform cfg call = .ok s' from hperform] at hgoes
  exact hgoes

/-- In a run of orderly calls no packet that was sent in part is prepared again, and an orderly
call that follows uses no packet or element that is not there. -/
theorem packets_prepared (hcfg : Roomy cfg least)
    (hrun : Run (create cfg.host) (PerformsOrderly cfg least) calls s) :
    (∀ p ∈ s.packets ++ s.current.toList, p.rebuilt = false) ∧
      ∀ call, Orderly cfg least s call → ∀ fault, s.perform cfg call = .error fault →
        fault ≠ .nullPacket ∧ fault ≠ .nullElement := by
  have hready := run_ready hcfg hrun
  obtain ⟨extra, hpacks, -⟩ := hready.packs
  refine ⟨fun p hp => (hpacks.recorded.packets p hp).rebuilt, fun call horderly fault hfault => ?_⟩
  have hgoes := perform_goes hcfg hready horderly
  rw [hfault] at hgoes
  obtain rfl : fault = .unanswered := hgoes
  exact ⟨nofun, nofun⟩

/-- Packets with something in them stay within the limit, so that `space_available` does not wrap. -/
theorem packets_within_limit (hcfg : Roomy cfg least)
    (hrun : Run (create cfg.host) (PerformsOrderly cfg least) calls s) :
    s.header.length.toNat = 0 ∨ TransportHeader.maxMarshaledSize + s.header.length.toNat +
      s.spaceAvailable cfg = sizeLimit cfg := by
  obtain ⟨extra, hpacks, -⟩ := (run_ready hcfg hrun).packs
  refine hpacks.room.imp_right fun hroom => ?_
  rw [spaceAvailable_eq hroom]
  exact Nat.add_sub_cancel' hroom

/-- The stream is what the connection took of the packets, each with a valid header of its own in
front, and the chain goes on where it stopped. -/
theorem stream_goes_on (hcfg : Roomy cfg least)
    (hrun : Run (create cfg.host) (PerformsOrderly cfg least) calls s) :
    Recorded cfg s ∧ ∀ p ∈ s.current, chainBytes s.pktChain = p.bytes.drop p.accepted := by
  obtain ⟨extra, hpacks, -⟩ := (run_ready hcfg hrun).packs
  refine ⟨hpacks.recorded, fun p hp => ?_⟩
  obtain ⟨q, sent, left, hcurrent, hchained⟩ | ⟨hrests, hall⟩ := hpacks.holds
  · obtain rfl : q = p := Option.some.inj (hcurrent.symm.trans hp)
    exact hchained.bytes
  · rw [hrests.chain, hall p hp, ← bytes_length, List.drop_length]
    rfl

/-- A check of what makes a call orderly when elements are not cut. -/
def checks (cfg : Config) (s : Strategy ε) : Call ε → Bool
  | .send relink e attempts =>
    Sendable e && (!sendsFirst cfg e s || !returns relink s.mode attempts)
  | .performWork _ => s.mode ≠ .suspend || (!collects s && !s.partlySent)
  | .resumeSend => !s.partlySent && (s.mode ≠ .terminated || s.elems.isEmpty)
  | .terminateSend _ => underWay s || s.elems.isEmpty
  | _ => true

theorem orderly_of_checks (hsize : cfg.maxMessageSize = 0) (least : Nat) {call : Call ε}
    (h : checks cfg s call = true) : Orderly cfg least s call := by
  cases call with
  | sendStart => trivial
  | send relink e attempts =>
    simp only [checks, Bool.and_eq_true, Bool.or_eq_true, Bool.not_eq_true', decide_eq_true_eq] at h
    refine ⟨.of_sendable hsize h.1 least, fun hfirst => ?_⟩
    rcases hfirst with hfirst | hnot
    · exact h.2.resolve_left (by simp [hfirst])
    · exact absurd hsize hnot
  | sendStop repoId attempts => trivial
  | performWork attempt =>
    refine ⟨fun _ => cutsWell_whole hsize least _ _, fun hsuspend => ?_⟩
    simp only [checks, hsuspend, ne_eq, not_true_eq_false, decide_false, Bool.false_or,
      Bool.and_eq_true, Bool.not_eq_true'] at h
    exact ⟨h.1, fun _ _ _ => h.2⟩
  | suspendSend => trivial
  | resumeSend =>
    simp only [checks, Bool.and_eq_true, Bool.not_eq_true', Bool.or_eq_true, decide_eq_true_eq,
      List.isEmpty_iff] at h
    exact ⟨fun _ _ => h.1, fun hterminated => h.2.resolve_left (by simp [hterminated])⟩
  | terminateSend graceful =>
    simp only [checks, Bool.or_eq_true, List.isEmpty_iff] at h
    exact h

theorem performsOrderly_of (hsize : cfg.maxMessageSize = 0) (least : Nat) (s : Strategy ε)
    (call : Call ε) (after : Strategy ε)
    (h : (if checks cfg s call then (s.perform cfg call).toOption else none) = some after) :
    PerformsOrderly cfg least s call after := by
  split_ifs at h with hchecks
  exact ⟨toOption_eq_some h, orderly_of_checks hsize least hchecks⟩

end

/-- The connection does not take a packet, is suspended and resumed, and takes it in part. -/
def resumedRun : List (Call WholeElement) :=
  [.sendStart, .send true (element 1 false) [], .sendStop none [⟨.backpressure, .unchanged⟩],
    .suspendSend, .resumeSend, .performWork ⟨.sent 20, .unchanged⟩]

theorem packets_prepared_resumed :
    ∃ s, Run (create smallPackets.host) (PerformsOrderly smallPackets 0) resumedRun s ∧
      (∀ p ∈ s.packets ++ s.current.toList, p.rebuilt = false) ∧
      ∀ call, Orderly smallPackets 0 s call → ∀ fault, s.perform smallPackets call = .error fault →
        fault ≠ .nullPacket ∧ fault ≠ .nullElement := by
  obtain ⟨s, hs⟩ : ∃ s, resumedRun.foldlM (fun s call =>
      if checks smallPackets s call then (Strategy.perform smallPackets s call).toOption else none)
      (create smallPackets.host) = some s := Option.isSome_iff_exists.mp (by decide)
  have hrun := Run.follow (performsOrderly_of rfl 0) .start hs
  exact ⟨s, hrun, packets_prepared ⟨by decide, nofun, by decide⟩ hrun⟩

theorem resumed_run :
    ∃ s, Run (create smallPackets.host) (PerformsOrderly smallPackets 0) resumedRun s := by
  obtain ⟨s, hs⟩ : ∃ s, resumedRun.foldlM (fun s call =>
      if checks smallPackets s call then (Strategy.perform smallPackets s call).toOption else none)
      (create smallPackets.host) = some s := Option.isSome_iff_exists.mp (by decide)
  exact ⟨s, Run.follow (performsOrderly_of rfl 0) .start hs⟩

theorem smallPackets_roomy : Roomy smallPackets 0 := ⟨by decide, fun h => absurd rfl h, by decide⟩

theorem packets_within_limit_resumed :
    ∃ s, Run (create smallPackets.host) (PerformsOrderly smallPackets 0) resumedRun s ∧
      (s.header.length.toNat = 0 ∨ TransportHeader.maxMarshaledSize + s.header.length.toNat +
        s.spaceAvailable smallPackets = sizeLimit smallPackets) :=
  resumed_run.imp fun _ hrun => ⟨hrun, packets_within_limit smallPackets_roomy hrun⟩

theorem stream_goes_on_resumed :
    ∃ s, Run (create smallPackets.host) (PerformsOrderly smallPackets 0) resumedRun s ∧
      Recorded smallPackets s ∧ ∀ p ∈ s.current, chainBytes s.pktChain = p.bytes.drop p.accepted :=
  resumed_run.imp fun _ hrun => ⟨hrun, stream_goes_on smallPackets_roomy hrun⟩

def suspendedRun : List (Call WholeElement) :=
  [.sendStart, .send true (element 1 false) [], .suspendSend]

/-- `perform_work` then sends a packet that is not there. -/
theorem suspended_null :
    ∃ s, Run (create .littleEndian) (Performs smallPackets) suspendedRun s ∧
      s.perform smallPackets (.performWork ⟨.backpressure, .unchanged⟩) = .error .nullPacket := by
  obtain ⟨s, hs, hnull⟩ : ∃ s, suspendedRun.foldlM
      (fun s call => (Strategy.perform smallPackets s call).toOption) (create .littleEndian) =
        some s ∧ (match s.perform smallPackets (.performWork ⟨.backpressure, .unchanged⟩) with
          | .error fault => decide (fault = .nullPacket)
          | .ok _ => false) = true :=
    Option.map_eq_some_iff.mp (by decide)
  refine ⟨s, Run.follow performs_of .start hs, ?_⟩
  split at hnull
  · next fault hfault => rw [hfault, of_decide_eq_true hnull]
  · cases hnull

end OpenDDS.Guarantees.PreparedPackets
