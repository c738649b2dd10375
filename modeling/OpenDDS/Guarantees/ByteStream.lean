import OpenDDS.Guarantees.SentStream

/-!
# The bytes on the wire

However `send_bytes` takes a packet, what it accepted is the packet from its first byte on,
packet after packet. `adjust_packet_after_send` keeps the lengths of blocks in an `int`: a
block of `2 ^ 31` bytes has a negative length there, and the loop runs off the chain.
-/
namespace OpenDDS.Guarantees.ByteStream

open Library Library.Folds Source Source.SendStrategy QueueElement PacketSending PreparedPackets
open SentStream
open ElementFates (Performs element)

variable {ε : Type} [QueueElement ε] {cfg : Config} {least : Nat} {s s' : Strategy ε}
  {arrived : List ε} {calls : List (Call ε)}

/-- The bytes of elements that were not accepted of the packet: one that is under way, or the
one that is collected. -/
def unacceptedBytes (s : Strategy ε) : Nat :=
  match s.current with
  | some p =>
    if p.accepted < p.size then p.size - max p.accepted p.header.length else elementsLength s.elems
  | none => elementsLength s.elems

/-- A call without failure, suspension or termination, for elements that are recognized. -/
def PerformsSteadily (cfg : Config) (least : Nat) (s : Strategy ε) (call : Call ε)
    (s' : Strategy ε) : Prop :=
  Performs cfg s call s' ∧ Answered call ∧ Unsuspended call ∧ Steady cfg least s call

theorem run_flowing (hcfg : Roomy cfg least)
    (hrun : Run (create cfg.host) (PerformsSteadily cfg least) calls s) :
    ∃ arrived, Flowing cfg least True arrived s := by
  refine hrun.invariant (fun s => ∃ arrived, Flowing cfg least True arrived s)
    ⟨[], create_flowing cfg least True⟩ ?_
  rintro s call s' ⟨arrived, hflowing⟩ ⟨hperform, hanswered, hunsuspended, hsteady⟩
  exact ⟨_, perform_flowing hcfg hflowing hanswered (fun _ => hunsuspended) hsteady hperform⟩

theorem accepted_begins (h : Flowing cfg least True arrived s) :
    s.accepted <+: (s.packets ++ s.current.toList).flatMap Packet.bytes := by
  obtain ⟨extra, hpacks, hflows, -⟩ := h.flows
  have hpackets : (s.packets.flatMap fun p => p.bytes.take p.accepted) =
      s.packets.flatMap Packet.bytes := by
    refine List.flatMap_congr fun p hp => List.take_of_length_le ?_
    rw [bytes_length, hflows.full p hp]
  have hcurrent : (s.current.toList.flatMap fun p => p.bytes.take p.accepted) <+:
      s.current.toList.flatMap Packet.bytes := by
    cases s.current with
    | none => exact List.prefix_rfl
    | some p => simpa using List.take_prefix p.accepted p.bytes
  rw [hpacks.recorded.stream, List.flatMap_append, List.flatMap_append, hpackets]
  exact (List.prefix_append_right_inj _).mpr hcurrent

theorem length_unaccepted (h : Flowing cfg least True arrived s) :
    s.header.length.toNat = unacceptedBytes s := by
  obtain ⟨extra, hpacks, -, hextra⟩ := h.flows
  obtain ⟨p, sent, left, hcurrent, hchained⟩ | ⟨hrests, hall⟩ := hpacks.holds
  · have hes : ∀ e ∈ left, Sendable e := fun e he => hpacks.sendable_left hchained e (by simp [he])
    obtain rfl : extra = [] := by
      by_contra hsome
      have hunder := (partlySent_of_chained hcurrent hchained hes).2
      rw [(hextra hsome).1] at hunder
      cases hunder
    simp only [unacceptedBytes, hcurrent, if_pos (hchained.pos hes).1]
    exact hchained.length
  · have hlength : s.header.length.toNat = elementsLength s.elems := by rw [hrests.length, hrests.elems]
    unfold unacceptedBytes
    cases hcurrent : s.current with
    | none => exact hlength
    | some p =>
      have hfull : ¬ p.accepted < p.size := by simp [hall p hcurrent]
      rw [hlength]
      simp only [if_neg hfull]

theorem ready_of_flowing (h : Flowing cfg least True arrived s) : Ready cfg least s := by
  obtain ⟨extra, hpacks, -, hextra⟩ := h.flows
  refine ⟨h.stands, ⟨extra, hpacks, ?_⟩, ?_⟩
  · intro hqueue
    by_contra hsome
    obtain ⟨-, hdirect | ⟨hsuspend, -⟩⟩ := hextra hsome
    · simp [hdirect] at hqueue
    · exact h.quiet trivial hsuspend
  · intro hmode
    have hdirect := hmode.resolve_right h.live.1
    exact partlySent_of_rests (rests_of_idle hpacks (h.direct hdirect).2).1

theorem returns_unfailing {attempts : List Attempt} (h : Unfailing attempts) (relink : Bool)
    (mode : SendMode) : returns relink mode attempts = false := by
  induction attempts with
  | nil => rfl
  | cons attempt attempts ih =>
    rw [returns, h attempt (by simp), Bool.false_and, if_neg Bool.false_ne_true]
    exact ih fun a ha => h a (by simp [ha])

theorem orderly_of_steady (h : Flowing cfg least True arrived s) {call : Call ε}
    (hanswered : Answered call) (hunsuspended : Unsuspended call) (hsteady : Steady cfg least s call) :
    Orderly cfg least s call := by
  cases call with
  | sendStart => trivial
  | send relink e attempts => exact ⟨hsteady, fun _ => returns_unfailing hanswered relink _⟩
  | sendStop repoId attempts => trivial
  | performWork attempt => exact ⟨hsteady, fun hsuspend => absurd hsuspend (h.quiet trivial)⟩
  | suspendSend => exact hunsuspended.elim
  | resumeSend => exact hunsuspended.elim
  | terminateSend graceful => exact hanswered.elim

/-- What was accepted is a prefix of the packets one after another, whose headers are marshaled
transport headers; the elements whose last byte was accepted, and no others, are delivered or
will be; `header_.length_` counts what is left; and each call ends if it is answered. -/
theorem stream_undisturbed (hcfg : Roomy cfg least)
    (hrun : Run (create cfg.host) (PerformsSteadily cfg least) calls s) :
    s.accepted <+: (s.packets ++ s.current.toList).flatMap Packet.bytes ∧
      (∀ p ∈ s.packets ++ s.current.toList, ∃ h : TransportHeader.Header, h.valid = true ∧
        p.header = PacketParsing.transportBytes cfg.host h) ∧
      (notices s).Perm
        (((s.packets ++ s.current.toList).flatMap sentOf).map fun e => (e, .delivered)) ∧
      s.header.length.toNat = unacceptedBytes s ∧
      ∀ call, Answered call → Unsuspended call → Steady cfg least s call →
        ∀ fault, s.perform cfg call = .error fault → fault = .unanswered := by
  obtain ⟨arrived, hflowing⟩ := run_flowing hcfg hrun
  obtain ⟨extra, hpacks, hflows, -⟩ := hflowing.flows
  refine ⟨accepted_begins hflowing, fun p hp => (hpacks.recorded.packets p hp).header, hflows.notices,
    length_unaccepted hflowing, fun call hanswered hunsuspended hsteady fault hfault => ?_⟩
  have hgoes := perform_goes hcfg (ready_of_flowing hflowing)
    (orderly_of_steady hflowing hanswered hunsuspended hsteady)
  rw [hfault] at hgoes
  exact hgoes

section

/-- A check of what makes a call steady when elements are not cut. -/
def steadily : Call ε → Bool
  | .send _ e attempts => Sendable e && attempts.all fun a => !fails a.answer
  | .suspendSend | .resumeSend => false
  | call => answers call

theorem performsSteadily_of (hsize : cfg.maxMessageSize = 0) (s : Strategy ε) (call : Call ε)
    (after : Strategy ε)
    (h : (if steadily call then (s.perform cfg call).toOption else none) = some after) :
    PerformsSteadily cfg 0 s call after := by
  split_ifs at h with hsteady
  refine ⟨toOption_eq_some h, ?_⟩
  cases call with
  | sendStart => exact ⟨trivial, trivial, trivial⟩
  | send relink e attempts =>
    simp only [steadily, Bool.and_eq_true, decide_eq_true_eq] at hsteady
    exact ⟨answered_of hsteady.2, trivial, .of_sendable hsize hsteady.1 0⟩
  | sendStop repoId attempts => exact ⟨answered_of hsteady, trivial, trivial⟩
  | performWork attempt =>
    exact ⟨answered_of hsteady, trivial, fun _ => cutsWell_whole hsize 0 _ _⟩
  | suspendSend => cases hsteady
  | resumeSend => cases hsteady
  | terminateSend graceful => cases hsteady

/-- Packets of which one block is handed over at a time. -/
def singleBlocks : Config := ⟨.littleEndian, 10, 500, 1000, 0, 1⟩

/-- Two elements in a packet that is cut in the header, behind it and in the first element. -/
def piecewiseRun : List (Call WholeElement) :=
  [.sendStart, .send true (element 1 false) [], .send true (element 2 false) [],
    .sendStop none [⟨.sent 10, .unchanged⟩], .performWork ⟨.sent 14, .unchanged⟩,
    .performWork ⟨.sent 2, .unchanged⟩, .performWork ⟨.backpressure, .unchanged⟩,
    .performWork ⟨.sent 1, .unchanged⟩]

theorem stream_undisturbed_piecewise :
    ∃ s, Run (create singleBlocks.host) (PerformsSteadily singleBlocks 0) piecewiseRun s ∧
      s.accepted <+: (s.packets ++ s.current.toList).flatMap Packet.bytes ∧
      (∀ p ∈ s.packets ++ s.current.toList, ∃ h : TransportHeader.Header, h.valid = true ∧
        p.header = PacketParsing.transportBytes singleBlocks.host h) ∧
      (notices s).Perm
        (((s.packets ++ s.current.toList).flatMap sentOf).map fun e => (e, .delivered)) ∧
      s.header.length.toNat = unacceptedBytes s ∧
      ∀ call, Answered call → Unsuspended call → Steady singleBlocks 0 s call →
        ∀ fault, s.perform singleBlocks call = .error fault → fault = .unanswered := by
  obtain ⟨s, hs⟩ : ∃ s, piecewiseRun.foldlM (fun s call =>
      if steadily call then (Strategy.perform singleBlocks s call).toOption else none)
      (create singleBlocks.host) = some s := Option.isSome_iff_exists.mp (by decide)
  have hrun := Run.follow (performsSteadily_of rfl) .start hs
  exact ⟨s, hrun, stream_undisturbed ⟨by decide, nofun, Nat.zero_le _⟩ hrun⟩

/-- Packets of up to `2 ^ 32 - 1` bytes. -/
def largePackets : Config := ⟨.littleEndian, 10, 500, 2 ^ 32 - 1, 0, 50⟩

section

variable {e : WholeElement} {b : MessageBlock} {h : List UInt8}

/-- One byte of the block is accepted behind the header: the loop takes the block for sent. -/
theorem longBlock_peel (hb : b.bytes.length = 2 ^ 31) (hh : h.length = 24) (mode : SendMode) :
    peel largePackets mode [⟨0, h⟩, b] ⟨[e], false, 25, 0, b.base, [], []⟩ = .error .nullPacket := by
  have hheader : toInt h.length = 24 := by
    rw [hh]
    rfl
  have hblock : toInt b.bytes.length = -2 ^ 31 := by
    rw [hb]
    rfl
  simp [peel, hheader, hblock, Peeling.extract, largePackets]

theorem longBlock_sendPacket {s : Strategy WholeElement} (hblocks : e.blocks = [b])
    (hb : b.bytes.length = 2 ^ 31) (hh : h.length = 24) (hchain : s.pktChain = [⟨0, h⟩, b])
    (helems : s.elems = [e]) (hheader : s.headerComplete = false) (hdelayed : s.delayed = []) :
    s.sendPacket largePackets (.sent 25) = .error .nullPacket := by
  have hoffered : (chainBytes (offered largePackets s.pktChain)).length = 24 + 2 ^ 31 := by
    rw [hchain]
    simp [offered, largePackets, hh, hb]
  have hadjust : ((s.hand largePackets).accept largePackets 25).adjustPacketAfterSend largePackets
      (25 : Nat) = .error .nullPacket := by
    have htail : tailBase e = b.base := tailBase_eq [] b hblocks
    have hpeel := longBlock_peel (e := e) hb hh s.mode
    rw [← htail] at hpeel
    simp only [Strategy.adjustPacketAfterSend, Strategy.accept, Strategy.hand, helems, hchain, hheader,
      hdelayed]
    rw [show ((25 : Nat) : Int) = 25 from rfl, hpeel]
  rw [sendPacket_adjusted (by simp [hchain]) (by decide) (by omega), hadjust]
  rfl

theorem longBlock_send (hblocks : e.blocks = [b]) (hb : b.bytes.length = 2 ^ 31)
    (hexclusive : e.exclusive = true) :
    (create .littleEndian : Strategy WholeElement).send largePackets true e
      [⟨.sent 25, .unchanged⟩] = .error .nullPacket := by
  have hlength : elementLength e = 2 ^ 31 := by
    simp [elementLength, totalLength, QueueElement.msg, hblocks, hb]
  have hfits : ¬ (largePackets.maxMessageSize = 0 ∧
      largePackets.maxSize < TransportHeader.maxMarshaledSize + elementLength e) := by
    rw [hlength]
    decide
  have hroom : sendsFirst largePackets e (create .littleEndian) = false := by
    have hspace : (create .littleEndian : Strategy WholeElement).spaceAvailable largePackets =
        2 ^ 32 - 1 - 24 := by decide
    have helems : (create .littleEndian : Strategy WholeElement).elems = [] := rfl
    have hsize : largePackets.maxMessageSize = 0 := rfl
    simp [sendsFirst, hspace, hlength, helems, hsize]
  unfold Strategy.send
  rw [if_neg (by decide), if_neg (by decide), if_neg hfits, if_neg (by decide)]
  simp only [hroom, Bool.false_eq_true, if_false]
  rw [appendLoop_whole rfl, if_pos (by decide), if_pos (by simp [looksFull, QueueElement.requiresExclusivePacket, hexclusive])]
  have hsend : directSend largePackets true [⟨.sent 25, .unchanged⟩]
      ((create .littleEndian : Strategy WholeElement).append e) = .error .nullPacket := by
    rw [directSend, directSendLoop, longBlock_sendPacket hblocks hb (h := marshalTransportHeader .littleEndian
      (((create .littleEndian : Strategy WholeElement).append e).preparePacket largePackets).header)]
    · rw [marshalTransportHeader_eq rfl, PacketParsing.transportBytes_length]
      rfl
    · simp [Strategy.preparePacket, Strategy.append, Strategy.putElement, create, QueueElement.msg, hblocks,
        largePackets]
    · rfl
    · rfl
    · rfl
  rw [hsend]
  rfl

end

/-- An element with a block of `2 ^ 31` bytes. -/
def longElement : WholeElement := ⟨7, [⟨1, List.replicate (2 ^ 31) 0⟩], true⟩

/-- Its last block is not empty, its blocks have different bases and one byte of them is
accepted; but `send` uses a packet that is not there. -/
theorem longElement_null :
    (∃ front b, QueueElement.msg longElement = front ++ [b] ∧ b.bytes ≠ []) ∧
      ((QueueElement.msg longElement).map MessageBlock.base).Nodup ∧
      Answered (.send true longElement [⟨.sent 25, .unchanged⟩]) ∧
      (create .littleEndian : Strategy WholeElement).perform largePackets
        (.send true longElement [⟨.sent 25, .unchanged⟩]) = .error .nullPacket := by
  have hlength : (List.replicate (2 ^ 31) (0 : UInt8)).length = 2 ^ 31 := List.length_replicate
  have hblocks : longElement.blocks = [⟨1, List.replicate (2 ^ 31) 0⟩] := rfl
  have hexclusive : longElement.exclusive = true := rfl
  have hsend := longBlock_send hblocks hlength hexclusive
  refine ⟨⟨[], _, hblocks, ?_⟩, ?_, ?_, hsend⟩
  · decide
  · exact List.nodup_singleton 1
  · simp [Answered, Unfailing, fails]

end

end OpenDDS.Guarantees.ByteStream
