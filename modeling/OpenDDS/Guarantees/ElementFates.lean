import Mathlib.Data.List.Nodup
import OpenDDS.Library.Run
import OpenDDS.Source.SendStrategyFrame

/-!
# The fate of an element

An element that was passed to `send` waits in `queue_`, in `elems_` or among the delayed
notifications until it is notified, once. Three calls break this: `send` returns without a
word for an element that is too large; it looks only for `MODE_QUEUE`, not for
`MODE_SUSPEND`, after it sent the current packet first; and `resume_send` forgets the
delayed notifications of a strategy that was terminated.
-/
namespace OpenDDS.Guarantees.ElementFates

open Library Library.Folds Source Source.SendStrategy

variable {ε : Type} {s s' s'' : Strategy ε}

/-- An element waits in one place and was not notified, or it was notified once. -/
def HasOneFate [DecidableEq ε] (s : Strategy ε) (e : ε) : Prop :=
  (s.queue.count e + s.elems.count e + (s.delayed.map Prod.fst).count e = 1 ∧
      (s.notified.map Prod.fst).count e = 0) ∨
    (s.queue.count e + s.elems.count e + (s.delayed.map Prod.fst).count e = 0 ∧
      (s.notified.map Prod.fst).count e = 1)

instance [DecidableEq ε] (s : Strategy ε) (e : ε) : Decidable (HasOneFate s e) :=
  inferInstanceAs (Decidable (_ ∨ _))

/-- The elements passed to `send`. -/
def passed : List (Call ε) → List ε
  | [] => []
  | .send _ e _ :: calls => e :: passed calls
  | _ :: calls => passed calls

structure Keeps [DecidableEq ε] (s s' : Strategy ε) : Prop where
  stands : Stands s'
  all : ∀ x, s'.occurrences x = s.occurrences x

section

variable [DecidableEq ε]

theorem Keeps.trans (h : Keeps s s') (h' : Keeps s' s'') : Keeps s s'' :=
  ⟨h'.stands, fun x => (h'.all x).trans (h.all x)⟩

theorem suspendSend_keeps (h : Stands s) : Keeps s s.suspendSend := by
  unfold Strategy.suspendSend
  split_ifs with hmode
  · exact ⟨⟨h.released, h.running, nofun, fun _ => ⟨h.mode, hmode.2⟩⟩, fun _ => rfl⟩
  · exact ⟨h, fun _ => rfl⟩

theorem resumeSend_keeps (h : Stands s) (hnone : s.mode = .terminated → s.delayed = []) :
    Keeps s s.resumeSend := by
  unfold Strategy.resumeSend
  split_ifs with hterminated hsuspend
  · refine ⟨⟨h.released, h.running, nofun, nofun⟩, fun x => ?_⟩
    simp [Strategy.occurrences, hnone hterminated]
  · obtain ⟨hset, hnot⟩ := h.before hsuspend
    exact ⟨⟨h.released, h.running, hset, fun hmode => absurd hmode hnot⟩, fun _ => rfl⟩
  · exact ⟨h, fun _ => rfl⟩

theorem interrupt_keeps (h : Stands s) : Keeps s s.interrupt := by
  unfold Strategy.interrupt
  split_ifs with hmode
  · exact ⟨⟨h.released, h.running, nofun, fun _ => ⟨h.mode, hmode⟩⟩, fun _ => rfl⟩
  · exact ⟨h, fun _ => rfl⟩

/-- The strategy after a call with which the elements `es` were passed. -/
structure Gains (es : List ε) (s s' : Strategy ε) : Prop where
  stands : Stands s'
  all : ∀ x, s'.occurrences x = s.occurrences x + es.count x

theorem Keeps.gains (h : Keeps s s') : Gains [] s s' := ⟨h.stands, fun x => by simp [h.all x]⟩

theorem Keeps.then_gains {es : List ε} (h : Keeps s s') (h' : Gains es s' s'') : Gains es s s'' :=
  ⟨h'.stands, fun x => by rw [h'.all x, h.all x]⟩

theorem Gains.then_keeps {es : List ε} (h : Gains es s s') (h' : Keeps s' s'') : Gains es s s'' :=
  ⟨h'.stands, fun x => by rw [h'.all x, h.all x]⟩

theorem queue_gains (h : Stands s) (e : ε) : Gains [e] s { s with queue := s.queue ++ [e] } :=
  ⟨⟨h.released, h.running, h.mode, h.before⟩, fun x => by
    simp only [Strategy.occurrences, List.count_append]
    omega⟩

end

variable [QueueElement ε]

def Performs (cfg : Config) (s : Strategy ε) (call : Call ε) (s' : Strategy ε) : Prop :=
  s.perform cfg call = .ok s'

/-- The mode after `relink` of a strategy that was suspended in the mode `before`. -/
def relinkedMode (before : SendMode) : Relink → SendMode
  | .unchanged | .suspended => .suspend
  | .resumed => before
  | .terminated => .terminated

/-- Whether `direct_send` in this mode leaves the strategy suspended. -/
def staysSuspended (relink : Bool) (mode : SendMode) : List Attempt → Bool
  | [] => false
  | attempt :: attempts =>
    match attempt.answer with
    | .sent _ | .backpressure => false
    | .sendError | .peerLost =>
      !relink ||
        match attempt.relink with
        | .unchanged | .suspended => true
        | .resumed => mode = .direct && staysSuspended relink mode attempts
        | .terminated => false

/-- The calls that lose no element: an element that is not discarded fits into a packet, and
the connection is not left suspended by a packet that is sent before it; and no notification
is delayed when a terminated strategy is used again. -/
def Careful (cfg : Config) (s : Strategy ε) : Call ε → Prop
  | .send relink e attempts =>
    (s.mode = .terminated ∧ s.gracefulDisconnecting = false) ∨
      (TransportHeader.maxMarshaledSize + elementLength e ≤ cfg.maxSize ∧
        (s.mode = .direct ∨ s.mode = .terminated → sendsFirst cfg e s = true →
          staysSuspended relink s.mode attempts = false))
  | .resumeSend => s.mode = .terminated → s.delayed = []
  | _ => True

instance (cfg : Config) (s : Strategy ε) (call : Call ε) : Decidable (Careful cfg s call) :=
  match call with
  | .send _ _ _ => inferInstanceAs (Decidable (_ ∨ _))
  | .resumeSend => inferInstanceAs (Decidable (_ → _))
  | .sendStart | .sendStop _ _ | .performWork _ | .suspendSend | .terminateSend _ =>
    inferInstanceAs (Decidable True)

def PerformsCarefully (cfg : Config) (s : Strategy ε) (call : Call ε) (s' : Strategy ε) : Prop :=
  Performs cfg s call s' ∧ Careful cfg s call

section

variable {cfg : Config} {relink : Bool} {e : ε} {attempts rest : List Attempt} [DecidableEq ε]

section

variable (h : Stands s)
include h

theorem notifications_keeps (select : ε → Bool) : Keeps s (s.sendDelayedNotifications select) :=
  ⟨h.same (sendDelayedNotifications_setting select h.running),
    fun x => sendDelayedNotifications_occurrences x select h.running⟩

theorem sendPacket_keeps {answer : Answer} {outcome : Outcome}
    (hsend : s.sendPacket cfg answer = .ok (outcome, s')) : Keeps s s' :=
  ⟨h.same (sendPacket_setting hsend), fun x => sendPacket_occurrences x hsend⟩

theorem clear_keeps (hclear : s.clear cfg .terminated = .ok s') :
    Keeps s s' ∧ s'.mode = .terminated := by
  obtain ⟨cleared, hpacket, rfl⟩ := clear_cases hclear
  have hnotified := notifications_keeps h fun _ => true
  have hcleared : Keeps s cleared := by
    obtain ⟨-, rfl⟩ | ⟨-, -, _, hadjust⟩ := clearPacket_cases hpacket
    · exact hnotified
    · exact hnotified.trans ⟨hnotified.stands.same (adjustPacketAfterSend_setting hadjust),
        fun x => adjustPacketAfterSend_occurrences x hadjust⟩
  refine ⟨⟨⟨hcleared.stands.released, hcleared.stands.running, nofun, nofun⟩, fun x => ?_⟩, rfl⟩
  rw [← hcleared.all x]
  simp only [Strategy.occurrences, List.map_append, List.map_map, Function.comp_def,
    List.map_id', List.count_append, List.count_nil]
  omega

theorem terminateSend_keeps {graceful : Bool} (hterminate : s.terminateSend cfg graceful = .ok s') :
    Keeps s s' ∧ s'.mode = .terminated := by
  obtain ⟨cleared, hclear, hfinal⟩ := map_eq_ok hterminate
  obtain ⟨⟨⟨released, running, mode, before⟩, hall⟩, hterminated⟩ := clear_keeps h hclear
  rw [← hfinal]
  split_ifs
  · exact ⟨⟨⟨released, running, mode, before⟩, hall⟩, hterminated⟩
  · exact ⟨⟨⟨released, running, mode, before⟩, hall⟩, hterminated⟩

theorem relink_keeps (hmode : s.mode ≠ .terminated) {doSuspend : Bool} {effect : Relink}
    (hrelink : s.relink cfg doSuspend effect = .ok s') : Keeps s s' := by
  have hsuspended : Keeps s (if doSuspend then s.suspendSend else s) := by
    split_ifs
    · exact suspendSend_keeps h
    · exact ⟨h, fun _ => rfl⟩
  have hlive : (if doSuspend then s.suspendSend else s).mode ≠ .terminated := by
    unfold Strategy.suspendSend
    split_ifs <;> simp [hmode]
  cases effect with
  | unchanged =>
    cases hrelink
    exact ⟨h, fun _ => rfl⟩
  | suspended =>
    cases hrelink
    exact hsuspended
  | resumed =>
    cases hrelink
    exact hsuspended.trans (resumeSend_keeps hsuspended.stands fun hterminated =>
      absurd hterminated hlive)
  | terminated => exact hsuspended.trans (terminateSend_keeps hsuspended.stands hrelink).1

theorem relink_mode (hmode : s.mode = .suspend) {effect : Relink}
    (hrelink : s.relink cfg false effect = .ok s') :
    s'.mode = relinkedMode s.modeBeforeSuspend effect := by
  cases effect with
  | unchanged =>
    cases hrelink
    exact hmode
  | suspended =>
    cases hrelink
    exact hmode
  | resumed =>
    cases hrelink
    simp [Strategy.resumeSend, hmode, relinkedMode]
  | terminated => exact (terminateSend_keeps h hrelink).2

theorem directSendLoop_keeps (hmode : s.mode = .direct ∨ s.mode = .terminated)
    (hsend : directSendLoop cfg relink attempts s = .ok (rest, s')) :
    Keeps s s' ∧ (s'.mode = .suspend → staysSuspended relink s.mode attempts = true) := by
  induction attempts generalizing s rest with
  | nil => cases hsend
  | cons attempt attempts ih =>
    have hlive : s.mode ≠ .suspend := by
      intro hsuspend
      rw [hsuspend] at hmode
      simp at hmode
    have hrelinks : ∀ {outcome sent again}, s.sendPacket cfg attempt.answer = .ok (outcome, sent) →
        sent.interrupt.relink cfg false attempt.relink = .ok again →
        Keeps s again ∧ again.mode = relinkedMode s.mode attempt.relink := by
      intro outcome sent again hpacket hrelink
      have hsent := sendPacket_keeps h hpacket
      have hsame := (sendPacket_setting hpacket).mode
      have hinterrupt : sent.interrupt.mode = .suspend ∧
          sent.interrupt.modeBeforeSuspend = s.mode := by
        rw [← hsame] at hlive ⊢
        simp [Strategy.interrupt, hlive]
      have hkept := interrupt_keeps hsent.stands
      refine ⟨(hsent.trans hkept).trans (relink_keeps hkept.stands (by simp [hinterrupt.1]) hrelink), ?_⟩
      rw [relink_mode hkept.stands hinterrupt.1 hrelink, hinterrupt.2]
    cases directSendLoop_cases hsend with
    | complete sends =>
      have hsent := sendPacket_keeps h sends
      exact ⟨hsent, fun hmode => absurd ((sendPacket_setting sends).mode.symm.trans hmode) hlive⟩
    | clogged outcome sent sends _ final =>
      have hsent := sendPacket_keeps h sends
      subst final
      exact ⟨⟨⟨hsent.stands.released, hsent.stands.running, nofun, nofun⟩, hsent.all⟩, nofun⟩
    | failed outcome sent sends fails stays final =>
      have hsent := sendPacket_keeps h sends
      subst final
      refine ⟨hsent.trans (interrupt_keeps hsent.stands), fun _ => ?_⟩
      rcases answer_of_fails sends fails with hanswer | hanswer <;>
        simp [staysSuspended, hanswer, stays]
    | given outcome sent sends fails tries relinks mode =>
      obtain ⟨hkeeps, hends⟩ := hrelinks sends relinks
      refine ⟨hkeeps, fun hsuspend => ?_⟩
      have heffect : attempt.relink = .unchanged ∨ attempt.relink = .suspended := by
        rw [hsuspend] at hends
        cases heffect : attempt.relink <;> rw [heffect] at hends <;> simp [relinkedMode] at hends ⊢
        exact hlive hends.symm
      rcases answer_of_fails sends fails with hanswer | hanswer <;>
        rcases heffect with heffect | heffect <;> simp [staysSuspended, hanswer, heffect]
    | retried outcome sent again left sends fails tries relinks mode loops =>
      obtain ⟨hkeeps, hends⟩ := hrelinks sends relinks
      have hresumed : attempt.relink = .resumed ∧ again.mode = s.mode := by
        cases heffect : attempt.relink <;> rw [heffect] at hends <;>
          simp [hends, relinkedMode] at mode ⊢
      have hdirect : s.mode = .direct := by
        rw [hresumed.2] at mode
        tauto
      obtain ⟨hloop, hstays⟩ := ih hkeeps.stands (.inl (hresumed.2.trans hdirect)) loops
      refine ⟨hkeeps.trans hloop, fun hsuspend => ?_⟩
      have hrest := hstays hsuspend
      rw [hresumed.2] at hrest
      rcases answer_of_fails sends fails with hanswer | hanswer <;>
        simp [staysSuspended, hanswer, hresumed.1, hdirect, hdirect ▸ hrest]

theorem directSend_keeps (hmode : s.mode = .direct ∨ s.mode = .terminated)
    (hsend : directSend cfg relink attempts s = .ok (rest, s')) :
    Keeps s s' ∧ (s'.mode = .suspend → staysSuspended relink s.mode attempts = true) := by
  have hprepared : Keeps s (s.preparePacket cfg) := ⟨h.same (preparePacket_setting s), fun _ => rfl⟩
  obtain ⟨hkeeps, hstays⟩ := directSendLoop_keeps hprepared.stands hmode hsend
  exact ⟨hprepared.trans hkeeps, hstays⟩

theorem appends_gains (hmode : s.mode = .direct ∨ s.mode = .terminated)
    (happends : Appends cfg relink e attempts s s') : Gains [e] s s' := by
  have hput : Gains [e] s (s.append e) :=
    ⟨h.same (append_setting e s), fun x => append_occurrences x e⟩
  cases happends with
  | collected => exact hput
  | sent rest _ _ _ sends => exact hput.then_keeps (directSend_keeps hput.stands hmode sends).1
  | skipped mode => exact absurd hmode mode

theorem sends_gains (hcareful : Careful cfg s (.send relink e attempts))
    (hsends : Sends cfg relink e attempts s s') : Gains [e] s s' := by
  cases hsends with
  | discarded =>
    refine ⟨⟨h.released, h.running, h.mode, h.before⟩, fun x => ?_⟩
    simp only [Strategy.occurrences, Strategy.dataDropped, List.map_append, List.count_append,
      List.map_cons, List.map_nil]
    omega
  | refused live large =>
    obtain hlost | ⟨hfits, -⟩ := hcareful
    · exact absurd hlost live
    · omega
  | queued => exact queue_gains h e
  | appended final live fits mode room appends =>
    have hfinal := appends_gains h (h.directly mode) appends
    exact hfinal.then_keeps (notifications_keeps hfinal.stands _)
  | queuedBehind rest ready live fits mode full sends now =>
    have hready := (directSend_keeps h (h.directly mode) sends).1
    exact hready.then_gains (queue_gains hready.stands e)
  | appendedBehind rest ready final live fits mode full sends now appends =>
    obtain ⟨hready, hstays⟩ := directSend_keeps h (h.directly mode) sends
    have hresumed : ready.mode ≠ .suspend := by
      intro hsuspend
      obtain hlost | ⟨-, hattempts⟩ := hcareful
      · exact live hlost
      · have hgoes := hattempts (h.directly mode) full
        rw [hstays hsuspend] at hgoes
        cases hgoes
    have hfinal := appends_gains hready.stands
      (hready.stands.directly fun hwaits => hwaits.elim now hresumed) appends
    exact (hready.then_gains hfinal).then_keeps (notifications_keeps hfinal.stands _)

theorem stops_keeps (hstops : Stops cfg attempts s s') : Keeps s s' := by
  have hcounted : ∀ n, Keeps s { s with startCounter := n } := fun n =>
    ⟨⟨h.released, h.running, h.mode, h.before⟩, fun _ => rfl⟩
  cases hstops with
  | ignored n => exact hcounted n
  | notified n select => exact (hcounted n).trans (notifications_keeps (hcounted n).stands select)
  | sent n select rest final mode length elems sends =>
    have hsent := (directSend_keeps (hcounted n).stands (h.directly mode) sends).1
    exact ((hcounted n).trans hsent).trans (notifications_keeps hsent.stands select)

end

section

variable (hsize : cfg.maxMessageSize = 0) (h : Stands s)
include hsize h

theorem workPacket_keeps : Keeps s (s.workPacket cfg) := by
  unfold Strategy.workPacket
  split_ifs
  · have hgathers : Keeps s (getPacketElems cfg s.queue s) := by
      refine ⟨?_, fun x => getPacketElems_occurrences x hsize⟩
      obtain ⟨_, _, _, -, heq, -⟩ := getPacketElems_whole hsize s.queue s
      rw [heq]
      exact ⟨h.released, h.running, h.mode, h.before⟩
    exact hgathers.trans ⟨hgathers.stands.same (preparePacket_setting _), fun _ => rfl⟩
  · exact ⟨h, fun _ => rfl⟩

theorem works_keeps {attempt : Attempt} (hworks : Works cfg attempt s s') : Keeps s s' := by
  have hpacket := workPacket_keeps hsize h
  cases hworks with
  | ignored => exact ⟨h, fun _ => rfl⟩
  | drained => exact ⟨⟨h.released, h.running, nofun, nofun⟩, fun _ => rfl⟩
  | finished sent mode work sends queue =>
    have hsent := hpacket.trans (sendPacket_keeps hpacket.stands sends)
    have hdirect : Keeps sent { sent with mode := .direct } :=
      ⟨⟨hsent.stands.released, hsent.stands.running, nofun, nofun⟩, fun _ => rfl⟩
    exact (hsent.trans hdirect).trans (notifications_keeps hdirect.stands _)
  | failed outcome sent _ mode work sends fails relinks =>
    have hsent := hpacket.trans (sendPacket_keeps hpacket.stands sends)
    have hnotified := hsent.trans (notifications_keeps hsent.stands fun _ => true)
    have hlive : (sent.sendDelayedNotifications fun _ => true).mode ≠ .terminated := by
      have hnotify := sendDelayedNotifications_setting (fun _ : ε => true) hsent.stands.running
      rw [hnotify.mode, (sendPacket_setting sends).mode, (workPacket_setting cfg s).1]
      rcases mode with mode | mode <;> rw [mode] <;> nofun
    exact hnotified.trans (relink_keeps hnotified.stands hlive relinks)
  | unfinished outcome sent mode work sends holds queue =>
    have hsent := hpacket.trans (sendPacket_keeps hpacket.stands sends)
    exact hsent.trans (notifications_keeps hsent.stands _)

theorem perform_gains {call : Call ε} (hcall : PerformsCarefully cfg s call s') :
    Gains (passed [call]) s s' := by
  obtain ⟨hperform, hcareful⟩ := hcall
  cases call with
  | sendStart =>
    cases hperform
    have hstart : Keeps s s.sendStart := by
      unfold Strategy.sendStart
      split_ifs
      · exact ⟨h, fun _ => rfl⟩
      · exact ⟨⟨h.released, h.running, h.mode, h.before⟩, fun _ => rfl⟩
    exact hstart.gains
  | send relink e attempts => exact sends_gains h hcareful (send_cases hsize h.released hperform)
  | sendStop repoId attempts => exact (stops_keeps h (sendStop_cases hperform)).gains
  | performWork attempt =>
    obtain ⟨⟨outcome, final⟩, hwork, hsame⟩ := map_eq_ok hperform
    obtain rfl : final = s' := hsame
    exact (works_keeps hsize h (performWork_cases hwork)).gains
  | suspendSend =>
    cases hperform
    exact (suspendSend_keeps h).gains
  | resumeSend =>
    cases hperform
    exact (resumeSend_keeps h hcareful).gains
  | terminateSend graceful => exact (terminateSend_keeps h hperform).1.gains

end

end

section

variable {cfg : Config} {host : ByteOrder} {calls : List (Call ε)} [DecidableEq ε]

omit [QueueElement ε] [DecidableEq ε] in
theorem passed_append (calls : List (Call ε)) (call : Call ε) :
    passed (calls ++ [call]) = passed calls ++ passed [call] := by
  induction calls with
  | nil => rfl
  | cons first calls ih => cases first <;> simp [passed, ih]

theorem run_occurrences (hsize : cfg.maxMessageSize = 0)
    (hrun : Run (create host) (PerformsCarefully cfg) calls s) :
    Stands s ∧ ∀ x, s.occurrences x = (passed calls).count x := by
  refine hrun.history (fun calls s => Stands s ∧ ∀ x, s.occurrences x = (passed calls).count x)
    ⟨⟨rfl, rfl, by simp [create], by simp [create]⟩, fun x => rfl⟩ ?_
  rintro calls s call s' ⟨hstands, hall⟩ hcall
  obtain ⟨hstands', hgains⟩ := perform_gains hsize hstands hcall
  refine ⟨hstands', fun x => ?_⟩
  rw [hgains x, hall x, passed_append, List.count_append]

/-- In a run of careful calls every element that was passed, each once, has one fate. -/
theorem one_fate (hsize : cfg.maxMessageSize = 0) (honce : (passed calls).Nodup)
    (hrun : Run (create host) (PerformsCarefully cfg) calls s) {e : ε} (he : e ∈ passed calls) :
    HasOneFate s e := by
  have hplaces := (run_occurrences hsize hrun).2 e
  rw [List.count_eq_one_of_mem honce he] at hplaces
  unfold Strategy.occurrences at hplaces
  unfold HasOneFate
  omega

end

section

/-- Packets of at most 1000 bytes, ten elements and fifty blocks. -/
def smallPackets : Config := ⟨.littleEndian, 10, 500, 1000, 0, 50⟩

def element (n : Nat) (exclusive : Bool) : WholeElement := ⟨7, [⟨n, [1, 2, 3]⟩], exclusive⟩

def performCarefully (cfg : Config) (s : Strategy WholeElement) (call : Call WholeElement) :
    Option (Strategy WholeElement) :=
  if Careful cfg s call then (s.perform cfg call).toOption else none

theorem performsCarefully_of {cfg : Config} (s : Strategy WholeElement) (call : Call WholeElement)
    (after : Strategy WholeElement) (h : performCarefully cfg s call = some after) :
    PerformsCarefully cfg s call after := by
  unfold performCarefully at h
  split_ifs at h with hcareful
  exact ⟨toOption_eq_some h, hcareful⟩

theorem performs_of {cfg : Config} (s : Strategy WholeElement) (call : Call WholeElement)
    (after : Strategy WholeElement) (h : (s.perform cfg call).toOption = some after) :
    Performs cfg s call after :=
  toOption_eq_some h

/-- A packet is sent in part by `perform_work`, after the connection did not take it. -/
def partlySentRun : List (Call WholeElement) :=
  [.sendStart, .send true (element 1 false) [], .sendStop none [⟨.backpressure, .unchanged⟩],
    .performWork ⟨.sent 20, .unchanged⟩]

theorem one_fate_partlySent :
    ∃ s, Run (create .littleEndian) (PerformsCarefully smallPackets) partlySentRun s ∧
      HasOneFate s (element 1 false) := by
  obtain ⟨s, hs⟩ : ∃ s, partlySentRun.foldlM (performCarefully smallPackets)
      (create .littleEndian) = some s := Option.isSome_iff_exists.mp (by decide)
  have hrun := Run.follow performsCarefully_of .start hs
  exact ⟨s, hrun, one_fate rfl (by decide) hrun (by decide)⟩

/-- The second element needs a packet of its own, and the peer is lost while the packet with
the first one is sent before it. -/
def lostPeerRun : List (Call WholeElement) :=
  [.sendStart, .send true (element 1 false) [],
    .send true (element 2 true) [⟨.peerLost, .unchanged⟩]]

/-- The second element is nowhere, and it is never notified. -/
theorem second_element_lost :
    ∃ s, Run (create .littleEndian) (Performs smallPackets) lostPeerRun s ∧
      (passed lostPeerRun).Nodup ∧ element 2 true ∈ passed lostPeerRun ∧
      ¬ HasOneFate s (element 2 true) := by
  obtain ⟨s, hs, hlost⟩ : ∃ s, lostPeerRun.foldlM
      (fun s call => (Strategy.perform smallPackets s call).toOption) (create .littleEndian) =
        some s ∧ decide (HasOneFate s (element 2 true)) = false :=
    Option.map_eq_some_iff.mp (by decide)
  exact ⟨s, Run.follow performs_of .start hs, by decide, by decide, of_decide_eq_false hlost⟩

end

end OpenDDS.Guarantees.ElementFates
