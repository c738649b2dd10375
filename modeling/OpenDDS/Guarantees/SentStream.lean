import OpenDDS.Guarantees.PreparedPackets

/-!
# Packets that are sent one after another

While the connection takes what it is handed, in whatever pieces, and the strategy is not
resumed into `MODE_DIRECT` with a packet or elements waiting, a packet is sent to its end
before the next one is prepared. The elements then go the way they came, and each one is
notified when its last byte was accepted.
-/
namespace OpenDDS.Guarantees.SentStream

open Library.Folds Source Source.SendStrategy PacketSending PreparedPackets

variable {ε : Type} [QueueElement ε] {cfg : Config} {least : Nat} {s s' : Strategy ε}
  {arrived extra : List ε}

def notices (s : Strategy ε) : List (ε × Fate) :=
  (s.delayed.map fun d => (d.1, d.2.fate)) ++ s.notified

/-- The elements `arrived` went into packets, in their order, or wait: `extra` is collected for
a packet, and behind it comes the queue. All packets but the last one are sent. -/
structure Flows (cfg : Config) (s : Strategy ε) (arrived extra : List ε) : Prop where
  full : ∀ p ∈ s.packets, p.accepted = p.size
  notices : (notices s).Perm
    (((s.packets ++ s.current.toList).flatMap sentOf).map fun e => (e, .delivered))
  order : cfg.maxMessageSize = 0 →
    arrived = (s.packets ++ s.current.toList).flatMap Packet.elements ++ (extra ++ s.queue)

theorem Flows.limited (h : Flows cfg s arrived extra) (hsize : cfg.maxMessageSize ≠ 0)
    (arrived' : List ε) : Flows cfg s arrived' extra :=
  ⟨h.full, h.notices, fun hzero => absurd hzero hsize⟩

theorem Flows.kept (h : Flows cfg s arrived extra) (hpackets : s'.packets = s.packets)
    (hcurrent : s'.current = s.current) (hdelayed : s'.delayed = s.delayed)
    (hnotified : s'.notified = s.notified) (hqueue : s'.queue = s.queue) :
    Flows cfg s' arrived extra where
  full := by
    rw [hpackets]
    exact h.full
  notices := by
    unfold SentStream.notices
    rw [hpackets, hcurrent, hdelayed, hnotified]
    exact h.notices
  order := by
    rw [hpackets, hcurrent, hqueue]
    exact h.order

variable {outcome : Outcome} {answer : Answer}

section

/-- The notifications of a packet that is taken apart. -/
def peelingNotices (mode : SendMode) (p : Peeling ε) : List (ε × Fate) :=
  (p.delayed.map fun d => (d.1, d.2.fate)) ++ p.elemsToNotify.map fun e => (e, mode.fate)

theorem peel_notices {mode : SendMode} {chain chain' : List MessageBlock} {p p' : Peeling ε}
    (h : peel cfg mode chain p = .ok (chain', p')) :
    ∃ sent, p.elems = sent ++ p'.elems ∧
      (peelingNotices mode p').Perm
        (peelingNotices mode p ++ sent.map fun e => (e, mode.fate)) := by
  induction chain generalizing p with
  | nil =>
    unfold peel at h
    split_ifs at h
    cases h
    exact ⟨[], rfl, by simp⟩
  | cons b rest ih =>
    unfold peel at h
    simp only at h
    split_ifs at h with hdone hwhole hheader hlast
    · cases h
      exact ⟨[], rfl, by simp⟩
    · obtain ⟨sent, helems, hperm⟩ := ih h
      exact ⟨sent, helems, hperm⟩
    · split at h
      · cases h
      · next q hextract =>
        obtain ⟨sent, helems, hperm⟩ := ih h
        unfold Peeling.extract at hextract
        split at hextract
        · cases hextract
        · next e elems hfirst =>
          simp only at hfirst hextract
          refine ⟨e :: sent, ?_, hperm.trans ?_⟩
          · rw [hfirst, List.cons_append, ← helems]
            split_ifs at hextract <;> cases hextract <;> rfl
          · split_ifs at hextract <;> cases hextract
            · simp only [peelingNotices, List.map_append, List.map_cons, List.map_nil,
                List.append_assoc, List.cons_append, List.nil_append]
              exact List.Perm.append_left _ List.perm_middle.symm
            · simp [peelingNotices]
    · obtain ⟨sent, helems, hperm⟩ := ih h
      exact ⟨sent, helems, hperm⟩
    · cases h
      exact ⟨[], rfl, by simp [peelingNotices]⟩
    · cases h
      exact ⟨[], rfl, by simp [peelingNotices]⟩

theorem sendPacket_notices (h : s.sendPacket cfg answer = .ok (outcome, s')) :
    ∃ sent, s.elems = sent ++ s'.elems ∧
      (notices s').Perm (notices s ++ sent.map fun e => (e, s.mode.fate)) := by
  obtain ⟨-, ⟨-, -, rfl⟩ | ⟨-, -, rfl⟩ | ⟨n, more, -, -, -, hadjust, -⟩⟩ := sendPacket_cases h
  · exact ⟨[], rfl, by simp [notices, Strategy.hand]⟩
  · exact ⟨[], rfl, by simp [notices, Strategy.hand]⟩
  · obtain ⟨hnone, rfl⟩ | ⟨e, rest, chain, p, helems, hpeel, rfl⟩ := adjustPacketAfterSend_cases hadjust
    · exact ⟨[], rfl, by simp [notices, Strategy.hand, Strategy.accept]⟩
    · obtain ⟨sent, hsplit, hperm⟩ := peel_notices hpeel
      refine ⟨sent, hsplit, ?_⟩
      simp only [peelingNotices, List.map_nil, List.append_nil] at hperm
      have hmoved := (hperm.append_right s.notified)
      refine List.Perm.trans ?_ (hmoved.trans ?_)
      · simp only [notices, Strategy.adjusted, Strategy.accept, Strategy.hand, List.append_assoc]
        exact List.Perm.append_left _ List.perm_append_comm
      · simp only [notices, Strategy.accept, Strategy.hand, List.append_assoc]
        exact List.Perm.append_left _ List.perm_append_comm

theorem notifications_notices (select : ε → Bool) (hrunning : s.transportShutdown = false) :
    (notices (s.sendDelayedNotifications select)).Perm (notices s) := by
  have hperm := (List.filter_append_perm (fun d : ε × SendMode => select d.1) s.delayed).map
    fun d => (d.1, d.2.fate)
  rw [sendDelayedNotifications_eq select hrunning]
  simp only [notices]
  refine List.Perm.trans ?_ (hperm.append_right s.notified)
  rw [List.map_append, ← List.append_assoc, List.append_assoc (List.map _ _) (List.map _ _)]
  exact List.perm_append_comm

end

section

variable {p : Packet ε} {sent left : List ε}

theorem sentOf_elems (h : Packs cfg least s extra) (hcurrent : s.current = some p) :
    sentOf p ++ s.elems = p.elements ++ extra := by
  obtain ⟨q, sent, left, hq, hchained⟩ | ⟨hrests, hall⟩ := h.holds
  · obtain rfl : q = p := Option.some.inj (hq.symm.trans hcurrent)
    rw [hchained.sentOf_eq fun e he => h.sendable_left hchained e (by simp [he]), hchained.elems,
      hchained.elements, List.append_assoc]
  · rw [sentOf_full (hall p hcurrent), hrests.elems]

theorem sendPacket_current (hcurrent : s.current = some p)
    (h : s.sendPacket cfg answer = .ok (outcome, s')) :
    s'.packets = s.packets ∧ ∃ n, s'.current = some (handOver cfg s n p) := by
  obtain ⟨-, ⟨-, -, rfl⟩ | ⟨-, -, rfl⟩ | ⟨n, more, -, -, -, hadjust, -⟩⟩ := sendPacket_cases h
  · exact ⟨rfl, 0, by simp [Strategy.hand, hcurrent, handOver]⟩
  · exact ⟨rfl, 0, by simp [Strategy.hand, hcurrent, handOver]⟩
  · have haccept : ((s.hand cfg).accept cfg n).current = some (handOver cfg s n p) := by
      simp [Strategy.accept, Strategy.hand, hcurrent, handOver]
    obtain ⟨-, rfl⟩ | ⟨_, _, _, _, -, -, rfl⟩ := adjustPacketAfterSend_cases hadjust
    · exact ⟨rfl, n, haccept⟩
    · exact ⟨rfl, n, haccept⟩

theorem fate_delivered {mode : SendMode} (h : mode ≠ .terminated) : mode.fate = .delivered := if_neg h

section

variable (h : Flows cfg s arrived extra)
include h

theorem Flows.sendPacket (hpacks : Packs cfg least s extra) (hpacks' : Packs cfg least s' extra)
    (hcurrent : s.current = some p) (hlive : s.mode ≠ .terminated)
    (hsend : s.sendPacket cfg answer = .ok (outcome, s')) : Flows cfg s' arrived extra := by
  obtain ⟨hpackets, n, hcurrent'⟩ := sendPacket_current hcurrent hsend
  obtain ⟨taken, hsplit, hperm⟩ := sendPacket_notices hsend
  have hqueue := (sendPacket_setting hsend).queue
  have hsent : sentOf (handOver cfg s n p) = sentOf p ++ taken := by
    have hall : sentOf p ++ s.elems = (handOver cfg s n p).elements ++ extra :=
      sentOf_elems hpacks hcurrent
    rw [hsplit, ← sentOf_elems hpacks' hcurrent', ← List.append_assoc] at hall
    exact (List.append_cancel_right hall).symm
  refine ⟨?_, hperm.trans ?_, ?_⟩
  · rw [hpackets]
    exact h.full
  · rw [fate_delivered hlive]
    refine (h.notices.append_right _).trans (List.Perm.of_eq ?_)
    rw [hpackets, hcurrent, hcurrent']
    simp [hsent]
  · have horder := h.order
    rw [hcurrent] at horder
    rw [hpackets, hcurrent', hqueue]
    simpa [handOver] using horder

theorem Flows.preparePacket (hrests : Rests s extra) (hall : ∀ p ∈ s.current, p.accepted = p.size)
    (hes : ∀ e ∈ s.elems, Sendable e) (hp : Prepares cfg s p) :
    Flows cfg (s.preparePacket cfg) arrived [] := by
  have hpackets : (s.preparePacket cfg).packets = s.packets ++ s.current.toList := rfl
  have hsent : sentOf p = [] := hp.chained.sentOf_eq hes
  refine ⟨?_, ?_, ?_⟩
  · rw [hpackets]
    intro q hq
    simp only [List.mem_append, Option.mem_toList] at hq
    exact hq.elim (h.full q) (hall q)
  · refine h.notices.trans (List.Perm.of_eq ?_)
    rw [hpackets, hp.current]
    simp [hsent]
  · intro hsize
    rw [h.order hsize, hpackets, hp.current]
    have hqueue : (s.preparePacket cfg).queue = s.queue := rfl
    simp [hp.elements, hrests.elems, hqueue]

theorem Flows.collect (hqueue : s.queue = []) (header : TransportHeader.Header) (piece : ε) :
    Flows cfg (collect header piece s) (arrived ++ [piece]) (extra ++ [piece]) := by
  refine ⟨h.full, h.notices, fun hsize => ?_⟩
  have hqueue' : (PreparedPackets.collect header piece s).queue = [] := hqueue
  rw [h.order hsize, hqueue', hqueue]
  simp [PreparedPackets.collect, Strategy.putElement]

theorem Flows.queue (e : ε) : Flows cfg { s with queue := s.queue ++ [e] } (arrived ++ [e]) extra :=
  ⟨h.full, h.notices, fun hsize => by rw [h.order hsize]; simp⟩

theorem Flows.notifications (select : ε → Bool) (hrunning : s.transportShutdown = false) :
    Flows cfg (s.sendDelayedNotifications select) arrived extra := by
  have hsame := notifications_same select hrunning
  refine ⟨?_, (notifications_notices select hrunning).trans ?_, ?_⟩
  · rw [hsame.packets]
    exact h.full
  · rw [hsame.packets, hsame.current]
    exact h.notices
  · rw [hsame.packets, hsame.current, hsame.queue]
    exact h.order

end

theorem Flows.gather (h : Flows cfg s arrived []) {taken : List ε}
    (hgathers : Gathers cfg least s.queue s s' taken) : Flows cfg s' arrived taken := by
  have hsame : s'.packets = s.packets ∧ s'.current = s.current ∧
      SentStream.notices s' = SentStream.notices s := by
    rw [hgathers.eq]
    exact ⟨rfl, rfl, rfl⟩
  refine ⟨?_, ?_, ?_⟩
  · rw [hsame.1]
    exact h.full
  · rw [hsame.1, hsame.2.1, hsame.2.2]
    exact h.notices
  · intro hsize
    rw [hsame.1, hsame.2.1, h.order hsize, ← hgathers.whole hsize, List.nil_append]

end

/-- The strategy has sent all packets but the last one; in `MODE_DIRECT` it has sent this one
too, and nothing is queued. If the run is `quiet` it is never suspended. -/
structure Flowing (cfg : Config) (least : Nat) (quiet : Prop) (arrived : List ε) (s : Strategy ε) :
    Prop where
  stands : Stands s
  live : s.mode ≠ .terminated ∧ s.modeBeforeSuspend ≠ .terminated
  flows : ∃ extra, Packs cfg least s extra ∧ Flows cfg s arrived extra ∧
    (extra ≠ [] → underWay s = false ∧
      (s.mode = .direct ∨ s.mode = .suspend ∧ s.modeBeforeSuspend = .direct))
  direct : s.mode = .direct → s.queue = [] ∧ underWay s = false
  quiet : quiet → s.mode ≠ .suspend

section

variable {quiet : Prop} {relink : Bool} {attempts : List Attempt} {e : ε}

theorem rests_of_idle (h : Packs cfg least s extra) (hidle : underWay s = false) :
    Rests s extra ∧ ∀ p ∈ s.current, p.accepted = p.size := by
  obtain ⟨p, sent, left, hcurrent, hchained⟩ | hrests := h.holds
  · have hunder := (partlySent_of_chained hcurrent hchained fun e he =>
      h.sendable_left hchained e (by simp [he])).2
    rw [hidle] at hunder
    cases hunder
  · exact hrests

theorem idle_of_full (hall : ∀ p ∈ s.current, p.accepted = p.size) : underWay s = false := by
  rw [underWay, Option.any_eq_false]
  intro p hp
  simp [hall p hp]

/-- The attempts do not fail. -/
def Unfailing (attempts : List Attempt) : Prop := ∀ a ∈ attempts, fails a.answer = false

/-- Where the strategy is after it sent a packet directly. -/
def Sent (s : Strategy ε) : Prop :=
  s.mode = .queue ∨ s.mode = .direct ∧ s.header.length = 0 ∧ s.elems = []

theorem idle_of_rests (h : Packs cfg least s extra) (hrests : Rests s []) : underWay s = false := by
  obtain ⟨p, sent, left, -, hchained⟩ | ⟨-, hall⟩ := h.holds
  · have hleft := hchained.elems.symm.trans hrests.elems
    exact absurd (List.append_eq_nil_iff.mp hleft).1 hchained.waiting
  · exact idle_of_full hall

section

variable (hstands : Stands s) (hbefore : s.modeBeforeSuspend ≠ .terminated)
  (hpacks : Packs cfg least s []) (hflows : Flows cfg s arrived [])
include hstands hbefore hpacks hflows

theorem Flowing.queued : Flowing cfg least quiet arrived { s with mode := .queue } :=
  ⟨⟨hstands.released, hstands.running, nofun, nofun⟩, ⟨nofun, hbefore⟩,
    ⟨[], hpacks.same ⟨rfl, rfl, rfl, rfl, rfl, rfl, rfl, rfl⟩, hflows.kept rfl rfl rfl rfl rfl,
      fun hnot => absurd rfl hnot⟩, nofun, fun _ => nofun⟩

theorem Flowing.drained (hrests : Rests s []) (hqueue : s.queue = []) :
    Flowing cfg least quiet arrived { s with mode := .direct } :=
  ⟨⟨hstands.released, hstands.running, nofun, nofun⟩, ⟨nofun, hbefore⟩,
    ⟨[], hpacks.same ⟨rfl, rfl, rfl, rfl, rfl, rfl, rfl, rfl⟩, hflows.kept rfl rfl rfl rfl rfl,
      fun hnot => absurd rfl hnot⟩,
    fun _ => ⟨hqueue, (idle_of_rests hpacks hrests : underWay s = false)⟩, fun _ => nofun⟩

end

theorem directSend_flowing (h : Flowing cfg least quiet arrived s) (hdirect : s.mode = .direct)
    (helems : s.elems ≠ []) (hattempts : Unfailing attempts) {rest : List Attempt}
    (hsend : directSend cfg relink attempts s = .ok (rest, s')) :
    Flowing cfg least quiet arrived s' ∧ Sent s' ∧ Unfailing rest := by
  obtain ⟨extra, hpacks, hflows, -⟩ := h.flows
  obtain ⟨hqueue, hidle⟩ := h.direct hdirect
  obtain ⟨hrests, hall⟩ := rests_of_idle hpacks hidle
  have hes : ∀ e ∈ s.elems, Sendable e := fun e he => (hpacks.suits e (by simp [he])).sendable
  obtain ⟨p, hp⟩ := preparePacket_chained cfg hpacks.order helems
    (by rw [hrests.length, hrests.elems])
  have hprepared := (preparePacket_packs hpacks (partlySent_of_rests hrests) helems).1
  have hflows' := hflows.preparePacket hrests hall hes hp
  have hlive : (s.preparePacket cfg).mode = .direct := hdirect
  cases attempts with
  | nil => cases hsend
  | cons attempt attempts =>
    have hanswer := hattempts attempt (by simp)
    have hgoes := sendPacket_goes hprepared hp.current hp.chained attempt.answer
    rw [directSend, directSendLoop] at hsend
    cases hresult : (s.preparePacket cfg).sendPacket cfg attempt.answer with
    | error fault =>
      rw [hresult] at hsend
      cases hsend
    | ok result =>
      obtain ⟨outcome, sent⟩ := result
      rw [hresult] at hgoes hsend
      have hflows'' := hflows'.sendPacket hprepared hgoes.packs hp.current (by simp [hlive]) hresult
      have hsame := (preparePacket_setting s).trans hgoes.setting
      have hstands := h.stands.same hsame
      have hbefore : sent.modeBeforeSuspend ≠ .terminated := by
        rw [hsame.before]
        exact h.live.2
      have hfails := hgoes.fails
      rw [hanswer] at hfails
      have hothers : Unfailing attempts := fun a ha => hattempts a (by simp [ha])
      cases outcome with
      | completeSend =>
        have hrests' := hgoes.complete rfl
        have hmode : sent.mode = .direct := hsame.mode.trans hdirect
        cases hsend
        refine ⟨⟨hstands, ⟨by simp [hmode], hbefore⟩, ⟨[], hgoes.packs, hflows'',
          fun hnot => absurd rfl hnot⟩, fun _ => ⟨?_, idle_of_rests hgoes.packs hrests'⟩,
            fun _ => by simp [hmode]⟩,
          Or.inr ⟨hmode, rests_empty hrests'⟩, hothers⟩
        rw [hsame.queue, hqueue]
      | backpressure =>
        cases hsend
        exact ⟨.queued hstands hbefore hgoes.packs hflows'', .inl rfl, hothers⟩
      | partialSend =>
        cases hsend
        exact ⟨.queued hstands hbefore hgoes.packs hflows'', .inl rfl, hothers⟩
      | peerLost => cases hfails
      | sendError => cases hfails

theorem Flowing.collect (hcfg : Roomy cfg least) (h : Flowing cfg least quiet arrived s)
    (hdirect : s.mode = .direct) {header : TransportHeader.Header} {piece : ε}
    (hsuits : Suits cfg least piece) (hsame : header.length = s.header.length)
    (horder : form header = form s.header)
    (hroom : TransportHeader.maxMarshaledSize + s.header.length.toNat + elementLength piece ≤
      sizeLimit cfg) : Flowing cfg least quiet (arrived ++ [piece]) (collect header piece s) := by
  obtain ⟨extra, hpacks, hflows, hextra⟩ := h.flows
  obtain ⟨hqueue, hidle⟩ := h.direct hdirect
  exact ⟨⟨h.stands.released, h.stands.running, h.stands.mode, h.stands.before⟩, h.live,
    ⟨extra ++ [piece], collect_packs hcfg hsuits hsame horder hroom hpacks,
      hflows.collect hqueue header piece, fun _ => ⟨hidle, .inl hdirect⟩⟩, h.direct, h.quiet⟩

theorem Flowing.notifications (h : Flowing cfg least quiet arrived s) (select : ε → Bool) :
    Flowing cfg least quiet arrived (s.sendDelayedNotifications select) := by
  have hset := sendDelayedNotifications_setting select h.stands.running
  have hsame := notifications_same select h.stands.running
  obtain ⟨extra, hpacks, hflows, hextra⟩ := h.flows
  refine ⟨h.stands.same hset, ?_, ⟨extra, hpacks.same hsame,
    hflows.notifications select h.stands.running, ?_⟩, ?_, ?_⟩
  · rw [hset.mode, hset.before]
    exact h.live
  · rw [hset.mode, hset.before, underWay_same hsame]
    exact hextra
  · rw [hset.mode, hset.queue, underWay_same hsame]
    exact h.direct
  · rw [hset.mode]
    exact h.quiet

theorem Flowing.queue (h : Flowing cfg least quiet arrived s) (hnot : s.mode ≠ .direct)
    (he : Suits cfg least e) (hfits : cfg.maxMessageSize = 0 →
      TransportHeader.maxMarshaledSize + elementLength e ≤ cfg.maxSize) :
    Flowing cfg least quiet (arrived ++ [e]) { s with queue := s.queue ++ [e] } := by
  obtain ⟨extra, hpacks, hflows, hextra⟩ := h.flows
  exact ⟨⟨h.stands.released, h.stands.running, h.stands.mode, h.stands.before⟩, h.live,
    ⟨extra, hpacks.queue he hfits, hflows.queue e, hextra⟩, fun hdirect => absurd hdirect hnot, h.quiet⟩

theorem Flowing.limited (h : Flowing cfg least quiet arrived s) (hsize : cfg.maxMessageSize ≠ 0)
    (arrived' : List ε) : Flowing cfg least quiet arrived' s := by
  obtain ⟨extra, hpacks, hflows, hextra⟩ := h.flows
  exact ⟨h.stands, h.live, ⟨extra, hpacks, hflows.limited hsize arrived', hextra⟩, h.direct,
    h.quiet⟩

theorem appendLoop_flowing (hcfg : Roomy cfg least) (exclusive : Bool) {fuel : Nat} {firstPkt : Bool}
    {next : Option ε} {arrived' : List ε} (h : Flowing cfg least quiet arrived s)
    (hloop : appendLoop cfg relink exclusive fuel firstPkt next e attempts s = .ok s')
    (hsuits : Suits cfg least (next.getD e)) (hwhole : cfg.maxMessageSize = 0 → next = none)
    (harrived : cfg.maxMessageSize = 0 → arrived' = if firstPkt then arrived ++ [e] else arrived)
    (hattempts : Unfailing attempts) (hroom : s.mode = .direct → firstPkt = true ∨ next.isSome = true →
      RoomFor cfg least s (next.getD e)) (hdirect : firstPkt = true → s.mode = .direct) :
    Flowing cfg least quiet arrived' s' := by
  induction fuel generalizing firstPkt next e attempts s arrived with
  | zero => cases hloop
  | succ fuel ih =>
    rw [appendLoop] at hloop
    by_cases henter : (firstPkt = true ∨ next.isSome = true) ∧
        (s.mode = .direct ∨ s.mode = .terminated)
    · have hmode : s.mode = .direct := henter.2.resolve_right h.live.1
      obtain ⟨piece, next', header, heq, hlength, horder, hpiece, hnext', hnone, hfits⟩ :=
        nextPiece_spec firstPkt hsuits hwhole (hroom hmode henter.1)
      rw [if_pos henter, heq] at hloop
      have hcollected : Flowing cfg least quiet arrived' (collect header piece s) := by
        have hcollect := h.collect hcfg hmode hpiece hlength horder hfits
        by_cases hsize : cfg.maxMessageSize = 0
        · obtain rfl := hwhole hsize
          obtain rfl : piece = e := (hnone hsize).1
          rw [harrived hsize, if_pos (henter.1.resolve_right (by simp))]
          exact hcollect
        · exact hcollect.limited hsize arrived'
      dsimp only at hloop
      split_ifs at hloop with hfull
      · split at hloop
        · cases hloop
        · next rest sent hresult =>
          obtain ⟨hready, hsent, hrest⟩ := directSend_flowing hcollected hmode
            (by simp [collect, Strategy.putElement]) hattempts hresult
          cases next' with
          | none =>
            exact ih hready hloop hpiece (fun _ => rfl) (fun _ => rfl) hrest (by simp) (by simp)
          | some x =>
            have hsize : cfg.maxMessageSize ≠ 0 := fun hzero => by simpa using (hnone hzero).2
            have hx := hnext' x rfl
            have hlimit : cfg.maxMessageSize = 0 →
              TransportHeader.maxMarshaledSize + elementLength x ≤ cfg.maxSize := fun h => absurd h hsize
            simp only at hloop
            obtain hqueue | ⟨hstill, hzero, -⟩ := hsent
            · rw [if_neg (by simp [hqueue]), if_pos hqueue] at hloop
              exact ih ((hready.queue (by simp [hqueue]) hx hlimit).limited hsize arrived') hloop hx
                (fun h => absurd h hsize) (fun _ => rfl) hrest (by simp [hqueue]) (by simp)
            · rw [if_pos hstill] at hloop
              exact ih hready hloop hx (fun h => absurd h hsize) (fun _ => rfl) hrest
                (fun _ _ => roomFor_empty hcfg hzero hlimit) (by simp)
      · obtain rfl : next' = none := by
          cases next' with
          | none => rfl
          | some x => simp [looksFull] at hfull
        exact ih hcollected hloop hpiece (fun _ => rfl) (fun _ => rfl) hattempts (by simp) (by simp)
    · rw [if_neg henter] at hloop
      cases hloop
      have hlater : firstPkt = false := by
        cases firstPkt with
        | false => rfl
        | true => exact absurd ⟨.inl rfl, .inl (hdirect rfl)⟩ henter
      by_cases hsize : cfg.maxMessageSize = 0
      · rw [harrived hsize, hlater]
        exact h
      · exact h.limited hsize arrived'

/-- The elements that a call brings; one that is too large is refused. -/
def arrival (cfg : Config) : Call ε → List ε
  | .send _ e _ =>
    if cfg.maxMessageSize = 0 ∧ cfg.maxSize < TransportHeader.maxMarshaledSize + elementLength e then []
    else [e]
  | _ => []

theorem send_flowing (hcfg : Roomy cfg least) (h : Flowing cfg least quiet arrived s)
    (he : Suits cfg least e) (hattempts : Unfailing attempts)
    (hsend : s.send cfg relink e attempts = .ok s') :
    Flowing cfg least quiet (arrived ++ arrival cfg (.send relink e attempts)) s' := by
  obtain ⟨extra, hpacks, -, -⟩ := h.flows
  unfold Strategy.send at hsend
  rw [if_neg (by simp [h.stands.released])] at hsend
  simp only [h.live.1, false_and, if_false] at hsend
  by_cases hlarge : cfg.maxMessageSize = 0 ∧
      cfg.maxSize < TransportHeader.maxMarshaledSize + elementLength e
  · rw [if_pos hlarge] at hsend
    cases hsend
    rw [arrival, if_pos hlarge, List.append_nil]
    exact h
  have hfits : cfg.maxMessageSize = 0 →
      TransportHeader.maxMarshaledSize + elementLength e ≤ cfg.maxSize := fun hsize => by
    by_contra hnot
    exact hlarge ⟨hsize, Nat.lt_of_not_le hnot⟩
  rw [arrival, if_neg hlarge]
  split_ifs at hsend with hqueue hfirst
  · cases hsend
    exact h.queue (by rintro hdirect; simp [hdirect] at hqueue) he hfits
  · have hdirect : s.mode = .direct := (h.stands.directly hqueue).resolve_right h.live.1
    cases hresult : directSend cfg relink attempts s with
    | error fault =>
      rw [hresult] at hsend
      cases hsend
    | ok result =>
      rw [hresult] at hsend
      simp only at hsend
      obtain ⟨hready, hsent, hrest⟩ := directSend_flowing h hdirect
        (sendsFirst_elems hcfg hpacks hfits hfirst) hattempts hresult
      obtain hqueued | ⟨hstill, hzero, -⟩ := hsent
      · rw [if_pos hqueued] at hsend
        cases hsend
        exact hready.queue (by simp [hqueued]) he hfits
      · rw [if_neg (by simp [hstill])] at hsend
        obtain ⟨final, hloop, rfl⟩ := map_eq_ok hsend
        exact (appendLoop_flowing hcfg _ hready hloop he (fun _ => rfl) (fun _ => rfl) hrest
          (fun _ _ => roomFor_empty hcfg hzero hfits) fun _ => hstill).notifications _
  · have hdirect : s.mode = .direct := (h.stands.directly hqueue).resolve_right h.live.1
    have hspace : spaceNeeded cfg e ≤ s.spaceAvailable cfg := by
      by_contra hnot
      exact hfirst (sendsFirst_iff.mpr (.inr (Nat.lt_of_not_le hnot)))
    obtain ⟨final, hloop, rfl⟩ := map_eq_ok hsend
    exact (appendLoop_flowing hcfg _ h hloop he (fun _ => rfl) (fun _ => rfl) hattempts
      (fun _ _ => roomFor_space hcfg hpacks hfits hspace) fun _ => hdirect).notifications _

theorem Flowing.counted (h : Flowing cfg least quiet arrived s) (n : Nat) :
    Flowing cfg least quiet arrived { s with startCounter := n } := by
  obtain ⟨extra, hpacks, hflows, hextra⟩ := h.flows
  exact ⟨⟨h.stands.released, h.stands.running, h.stands.mode, h.stands.before⟩, h.live,
    ⟨extra, hpacks.same ⟨rfl, rfl, rfl, rfl, rfl, rfl, rfl, rfl⟩, hflows.kept rfl rfl rfl rfl rfl,
      hextra⟩, h.direct, h.quiet⟩

theorem sendStop_flowing (h : Flowing cfg least quiet arrived s) (hattempts : Unfailing attempts)
    {repoId : Option Nat} (hstop : s.sendStop cfg repoId attempts = .ok s') :
    Flowing cfg least quiet arrived s' := by
  cases sendStop_cases hstop with
  | ignored n => exact h.counted n
  | notified n select => exact (h.counted n).notifications select
  | sent n select rest final hmode hlength helems hsends =>
    have hdirect : s.mode = .direct := (h.stands.directly hmode).resolve_right h.live.1
    exact (directSend_flowing (h.counted n) hdirect helems hattempts hsends).1.notifications select

end

section

variable {quiet : Prop}

theorem workPacket_flows (hcfg : Roomy cfg least) (h : Flowing cfg least quiet arrived s)
    (hcuts : s.header.length = 0 → cutsWell cfg least s.queue s)
    (hwork : ¬ (s.header.length = 0 ∧ s.queue = []))
    (hsend : (s.workPacket cfg).sendPacket cfg answer = .ok (outcome, s')) :
    ∃ p sent left, (s.workPacket cfg).current = some p ∧
      Packs cfg least (s.workPacket cfg) [] ∧ Flows cfg (s.workPacket cfg) arrived [] ∧
      Chained (s.workPacket cfg) p sent left [] := by
  obtain ⟨extra, hpacks, hflows, hextra⟩ := h.flows
  unfold Strategy.workPacket at hsend ⊢
  split_ifs at hsend ⊢ with hlength
  · have hqueue : s.queue ≠ [] := fun hnone => hwork ⟨hlength, hnone⟩
    obtain rfl : extra = [] := by
      obtain ⟨hrests, -⟩ := hpacks.rests hlength
      by_contra hsome
      have hrests' := (rests_of_idle hpacks (hextra hsome).1).1
      exact hsome (hrests'.elems.symm.trans hrests.elems)
    obtain ⟨taken, hfilled⟩ := getPacketElems_filled hcfg hpacks hlength hqueue (hcuts hlength)
    have helems := hfilled.rests.elems
    have hes : ∀ e ∈ (getPacketElems cfg s.queue s).elems, Sendable e := fun e he =>
      (hfilled.packs.suits e (by simp [he])).sendable
    obtain ⟨p, hp⟩ := preparePacket_chained cfg hfilled.packs.order
      (by rw [helems]; exact hfilled.some) (by rw [hfilled.rests.length, helems])
    exact ⟨p, [], _, hp.current, (workPacket_gathered hcfg hpacks hlength hqueue (hcuts hlength)).1,
      (hflows.gather hfilled.gathers).preparePacket hfilled.rests hfilled.full hes hp, hp.chained⟩
  · obtain ⟨p, sent, left, hcurrent, hchained⟩ | ⟨hrests, hall⟩ := hpacks.holds
    · obtain rfl : extra = [] := by
        by_contra hsome
        have hunder := (partlySent_of_chained hcurrent hchained fun e he =>
          hpacks.sendable_left hchained e (by simp [he])).2
        rw [(hextra hsome).1] at hunder
        cases hunder
      exact ⟨p, sent, left, hcurrent, hpacks, hflows, hchained⟩
    -- a packet is only collected: there is no chain to send
    · exact absurd hrests.chain (sendPacket_cases hsend).1

theorem performWork_flowing (hcfg : Roomy cfg least) (h : Flowing cfg least quiet arrived s)
    {attempt : Attempt} (hanswer : fails attempt.answer = false)
    (hcuts : s.header.length = 0 → cutsWell cfg least s.queue s) {outcome : WorkOutcome}
    (hwork : s.performWork cfg attempt = .ok (outcome, s')) : Flowing cfg least quiet arrived s' := by
  obtain ⟨hsetMode, hsetBefore, hreleased, hrunning⟩ := workPacket_setting cfg s
  have hsends : ∀ outcome sent, ¬ (s.header.length = 0 ∧ s.queue = []) →
      (s.workPacket cfg).sendPacket cfg attempt.answer = .ok (outcome, sent) →
      outcome.fails = false ∧ sent.mode = s.mode ∧ Stands sent ∧
        sent.modeBeforeSuspend ≠ .terminated ∧ Packs cfg least sent [] ∧
        Flows cfg sent arrived [] ∧ (outcome = .completeSend → Rests sent []) := by
    intro outcome sent hsome hsend
    obtain ⟨p, before, left, hcurrent, hpacks, hflows, hchained⟩ :=
      workPacket_flows hcfg h hcuts hsome hsend
    have hgoes := sendPacket_goes hpacks hcurrent hchained attempt.answer
    rw [hsend] at hgoes
    have hmode := hgoes.setting.mode.trans hsetMode
    have hbefore := hgoes.setting.before.trans hsetBefore
    refine ⟨hgoes.fails.trans hanswer, hmode, ⟨(hgoes.setting.released.trans hreleased).trans
      h.stands.released, (hgoes.setting.shutdown.trans hrunning).trans h.stands.running, ?_, ?_⟩, ?_,
      hgoes.packs, hflows.sendPacket hpacks hgoes.packs hcurrent ?_ hsend, hgoes.complete⟩
    · rw [hmode]
      exact h.stands.mode
    · rw [hmode, hbefore]
      exact h.stands.before
    · rw [hbefore]
      exact h.live.2
    · rw [hsetMode]
      exact h.live.1
  cases performWork_cases hwork with
  | ignored => exact h
  | drained hmode hlength hqueue =>
    obtain ⟨extra, hpacks, hflows, hextra⟩ := h.flows
    obtain ⟨hrests, -⟩ := hpacks.rests hlength
    obtain rfl : extra = [] := by
      by_contra hsome
      have hrests' := (rests_of_idle hpacks (hextra hsome).1).1
      exact hsome (hrests'.elems.symm.trans hrests.elems)
    exact .drained h.stands h.live.2 hpacks hflows hrests hqueue
  | finished sent hmode hsome hsend hqueue =>
    obtain ⟨-, -, hstands, hbefore, hpacks, hflows, hcomplete⟩ := hsends _ sent hsome hsend
    exact (Flowing.drained hstands hbefore hpacks hflows (hcomplete rfl) hqueue).notifications _
  | failed sending sent final hmode hsome hsend hfails =>
    rw [(hsends _ sent hsome hsend).1] at hfails
    cases hfails
  | unfinished sending sent hmode hsome hsend =>
    obtain ⟨-, hsame, hstands, hbefore, hpacks, hflows, -⟩ := hsends _ sent hsome hsend
    have hsent : Flowing cfg least quiet arrived sent := by
      refine ⟨hstands, ⟨?_, hbefore⟩, ⟨[], hpacks, hflows, fun hnot => absurd rfl hnot⟩, ?_, ?_⟩
      · rw [hsame]
        exact h.live.1
      · intro hdirect
        rw [hsame] at hdirect
        simp [hdirect] at hmode
      · rw [hsame]
        exact h.quiet
    exact hsent.notifications _

theorem Flowing.suspendSend (h : Flowing cfg least quiet arrived s) (hloud : ¬ quiet) :
    Flowing cfg least quiet arrived s.suspendSend := by
  obtain ⟨extra, hpacks, hflows, hextra⟩ := h.flows
  unfold Strategy.suspendSend
  split_ifs with hmode
  · refine ⟨⟨h.stands.released, h.stands.running, nofun, fun _ => ⟨h.stands.mode, hmode.2⟩⟩,
      ⟨nofun, hmode.1⟩, ⟨extra, hpacks.same ⟨rfl, rfl, rfl, rfl, rfl, rfl, rfl, rfl⟩,
        hflows.kept rfl rfl rfl rfl rfl, fun hsome => ⟨(hextra hsome).1, ?_⟩⟩, nofun,
      fun hquiet => absurd hquiet hloud⟩
    obtain ⟨-, hdirect | ⟨hsuspend, -⟩⟩ := hextra hsome
    · exact .inr ⟨rfl, hdirect⟩
    · exact absurd hsuspend hmode.2
  · exact h

theorem Flowing.resumeSend (h : Flowing cfg least quiet arrived s)
    (hidle : s.mode = .suspend → s.modeBeforeSuspend = .direct → s.queue = [] ∧ underWay s = false) :
    Flowing cfg least quiet arrived s.resumeSend := by
  obtain ⟨extra, hpacks, hflows, hextra⟩ := h.flows
  unfold Strategy.resumeSend
  rw [if_neg h.live.1]
  split_ifs with hsuspend
  · obtain ⟨hset, hnot⟩ := h.stands.before hsuspend
    refine ⟨⟨h.stands.released, h.stands.running, hset, fun hmode => absurd hmode hnot⟩,
      ⟨h.live.2, nofun⟩, ⟨extra, hpacks.same ⟨rfl, rfl, rfl, rfl, rfl, rfl, rfl, rfl⟩,
        hflows.kept rfl rfl rfl rfl rfl, fun hsome => ⟨(hextra hsome).1, .inl ?_⟩⟩, hidle hsuspend,
      fun _ => hnot⟩
    obtain ⟨-, hdirect | ⟨-, hbefore⟩⟩ := hextra hsome
    · simp [hsuspend] at hdirect
    · exact hbefore
  · exact h

end

section

variable {quiet : Prop}

/-- The calls of a run without failures and termination. -/
def Answered : Call ε → Prop
  | .send _ _ attempts => Unfailing attempts
  | .sendStop _ attempts => Unfailing attempts
  | .performWork attempt => fails attempt.answer = false
  | .terminateSend _ => False
  | .sendStart | .suspendSend | .resumeSend => True

def answers : Call ε → Bool
  | .send _ _ attempts | .sendStop _ attempts => attempts.all fun a => !fails a.answer
  | .performWork attempt => !fails attempt.answer
  | .terminateSend _ => false
  | .sendStart | .suspendSend | .resumeSend => true

omit [QueueElement ε] in
theorem answered_of {call : Call ε} (h : answers call = true) : Answered call := by
  cases call with
  | send relink e attempts => simpa [Answered, Unfailing, answers] using h
  | sendStop repoId attempts => simpa [Answered, Unfailing, answers] using h
  | performWork attempt => simpa [Answered, answers] using h
  | terminateSend => cases h
  | _ => trivial

/-- The calls of a run that is not suspended. -/
def Unsuspended : Call ε → Prop
  | .suspendSend | .resumeSend => False
  | _ => True

/-- The calls with which packets are sent one after another. -/
def Steady (cfg : Config) (least : Nat) (s : Strategy ε) : Call ε → Prop
  | .send _ e _ => Suits cfg least e
  | .performWork _ => s.header.length = 0 → cutsWell cfg least s.queue s
  | .resumeSend =>
    s.mode = .suspend → s.modeBeforeSuspend = .direct → s.queue = [] ∧ underWay s = false
  | _ => True

theorem perform_flowing (hcfg : Roomy cfg least) (h : Flowing cfg least quiet arrived s) {call : Call ε}
    (hanswered : Answered call) (hquiet : quiet → Unsuspended call) (hsteady : Steady cfg least s call)
    (hperform : s.perform cfg call = .ok s') :
    Flowing cfg least quiet (arrived ++ arrival cfg call) s' := by
  cases call with
  | sendStart =>
    have hstarted : Flowing cfg least quiet arrived s.sendStart := by
      unfold Strategy.sendStart
      split_ifs
      · exact h
      · exact h.counted _
    cases hperform
    simpa [arrival] using hstarted
  | send relink e attempts => exact send_flowing hcfg h hsteady hanswered hperform
  | sendStop repoId attempts => simpa [arrival] using sendStop_flowing h hanswered hperform
  | performWork attempt =>
    obtain ⟨⟨outcome, final⟩, hwork, rfl⟩ := map_eq_ok hperform
    simpa [arrival] using performWork_flowing hcfg h hanswered hsteady hwork
  | suspendSend =>
    cases hperform
    simpa [arrival] using h.suspendSend hquiet
  | resumeSend =>
    cases hperform
    simpa [arrival] using h.resumeSend hsteady
  | terminateSend graceful => exact hanswered.elim

theorem create_flowing (cfg : Config) (least : Nat) (quiet : Prop) :
    Flowing cfg least quiet [] (create cfg.host : Strategy ε) :=
  ⟨⟨rfl, rfl, nofun, nofun⟩, ⟨nofun, nofun⟩,
    ⟨[], ⟨rfl, .inr ⟨⟨rfl, rfl, rfl⟩, nofun⟩, .inl rfl, nofun, nofun, ⟨nofun, rfl⟩⟩,
      ⟨nofun, .refl _, fun _ => rfl⟩, fun hnot => absurd rfl hnot⟩, fun _ => ⟨rfl, rfl⟩, fun _ => nofun⟩

end

end OpenDDS.Guarantees.SentStream
