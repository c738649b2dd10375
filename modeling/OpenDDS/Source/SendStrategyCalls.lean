import OpenDDS.Source.SendStrategy

/-!
What the calls of a send strategy come to when elements are not fragmented and the link is
not released: one statement for each call, from which the invariants are derived.
-/
namespace OpenDDS.Source.SendStrategy

open Library.Folds QueueElement

variable {ε : Type} [QueueElement ε] {cfg : Config} {s s' : Strategy ε}

/-- An element in the packet that is collected directly. -/
def Strategy.append (e : ε) (s : Strategy ε) : Strategy ε :=
  { s with header := { s.header with lastFragment := false } }.putElement e

/-- The state in which `send_bytes` answers. -/
def Strategy.hand (cfg : Config) (s : Strategy ε) : Strategy ε :=
  { s with current := s.current.map fun p => { p with
      handed := max p.handed (p.accepted + (chainBytes (offered cfg s.pktChain)).length) } }

/-- The state once `n` bytes were accepted. -/
def Strategy.accept (cfg : Config) (n : Nat) (s : Strategy ε) : Strategy ε :=
  { s with
    accepted := s.accepted ++ (chainBytes (offered cfg s.pktChain)).take n
    current := s.current.map fun p => { p with accepted := p.accepted + n } }

def Outcome.fails (outcome : Outcome) : Bool := outcome = .peerLost || outcome = .sendError

theorem sendPacket_cases {answer : Answer} {outcome : Outcome}
    (h : s.sendPacket cfg answer = .ok (outcome, s')) :
    s.pktChain ≠ [] ∧
      ((answer = .peerLost ∨ answer = .sendError) ∧ outcome.fails = true ∧ s' = s.hand cfg ∨
        answer = .backpressure ∧ outcome = .backpressure ∧ s' = s.hand cfg ∨
        ∃ n more, answer = .sent n ∧ 0 < n ∧
          n ≤ (chainBytes (offered cfg s.pktChain)).length ∧
          ((s.hand cfg).accept cfg n).adjustPacketAfterSend cfg n = .ok (more, s') ∧
          outcome = if more then .partialSend else .completeSend) := by
  unfold Strategy.sendPacket at h
  split_ifs at h with hnull
  refine ⟨hnull, ?_⟩
  cases answer with
  | peerLost =>
    cases h
    exact .inl ⟨.inl rfl, rfl, rfl⟩
  | sendError =>
    cases h
    exact .inl ⟨.inr rfl, rfl, rfl⟩
  | backpressure =>
    cases h
    exact .inr (.inl ⟨rfl, rfl, rfl⟩)
  | sent n =>
    simp only at h
    split_ifs at h with hbad
    refine .inr (.inr ⟨n, ?_⟩)
    have hpos : 0 < n := by omega
    have hle : n ≤ (chainBytes (offered cfg s.pktChain)).length := by omega
    split at h
    · cases h
    · next s₁ hadjust =>
      cases h
      exact ⟨true, rfl, hpos, hle, hadjust, rfl⟩
    · next s₁ hadjust =>
      cases h
      exact ⟨false, rfl, hpos, hle, hadjust, rfl⟩

theorem sendPacket_adjusted {n : Nat} (hchain : s.pktChain ≠ []) (hpos : 0 < n)
    (hn : n ≤ (chainBytes (offered cfg s.pktChain)).length) :
    s.sendPacket cfg (.sent n) = (((s.hand cfg).accept cfg n).adjustPacketAfterSend cfg n).map
      fun sent => (if sent.1 then .partialSend else .completeSend, sent.2) := by
  have hgood : ¬ (n = 0 ∨ (chainBytes (offered cfg s.pktChain)).length < n) := by omega
  unfold Strategy.sendPacket
  rw [if_neg hchain]
  simp only [if_neg hgood]
  change _ = (((s.hand cfg).accept cfg n).adjustPacketAfterSend cfg n).map _
  split <;> next hadjust => rw [show ((s.hand cfg).accept cfg n).adjustPacketAfterSend cfg n = _ from hadjust]; rfl

theorem answer_of_fails {answer : Answer} {outcome : Outcome}
    (h : s.sendPacket cfg answer = .ok (outcome, s')) (hfails : outcome.fails = true) :
    answer = .peerLost ∨ answer = .sendError := by
  obtain ⟨-, ⟨hanswer, -, -⟩ | ⟨-, rfl, -⟩ | ⟨_, more, -, -, -, -, rfl⟩⟩ := sendPacket_cases h
  · exact hanswer
  · simp [Outcome.fails] at hfails
  · cases more <;> simp [Outcome.fails] at hfails

/-- The mode once the connection failed. -/
def Strategy.interrupt (s : Strategy ε) : Strategy ε :=
  if s.mode ≠ .suspend then { s with modeBeforeSuspend := s.mode, mode := .suspend } else s

/-- What one round of `direct_send` does. -/
inductive Attempts (cfg : Config) (relink : Bool) (attempt : Attempt) (attempts : List Attempt)
    (s : Strategy ε) (s' : Strategy ε) : Prop
  | complete (sends : s.sendPacket cfg attempt.answer = .ok (.completeSend, s'))
  | clogged (outcome : Outcome) (sent : Strategy ε)
      (sends : s.sendPacket cfg attempt.answer = .ok (outcome, sent))
      (kind : outcome = .backpressure ∨ outcome = .partialSend)
      (final : s' = { sent with mode := .queue })
  | failed (outcome : Outcome) (sent : Strategy ε)
      (sends : s.sendPacket cfg attempt.answer = .ok (outcome, sent))
      (fails : outcome.fails = true) (stays : relink = false) (final : s' = sent.interrupt)
  | given (outcome : Outcome) (sent : Strategy ε)
      (sends : s.sendPacket cfg attempt.answer = .ok (outcome, sent))
      (fails : outcome.fails = true) (tries : relink = true)
      (relinks : sent.interrupt.relink cfg false attempt.relink = .ok s')
      (mode : s'.mode = .suspend ∨ s'.mode = .terminated)
  | retried (outcome : Outcome) (sent again : Strategy ε) (rest : List Attempt)
      (sends : s.sendPacket cfg attempt.answer = .ok (outcome, sent))
      (fails : outcome.fails = true) (tries : relink = true)
      (relinks : sent.interrupt.relink cfg false attempt.relink = .ok again)
      (mode : ¬ (again.mode = .suspend ∨ again.mode = .terminated))
      (loops : directSendLoop cfg relink attempts again = .ok (rest, s'))

section

variable {relink : Bool} {attempt : Attempt} {attempts rest : List Attempt}

theorem failed_cases {outcome : Outcome} {sent : Strategy ε}
    (hsend : s.sendPacket cfg attempt.answer = .ok (outcome, sent)) (hfails : outcome.fails = true)
    (h : (if relink then
        match sent.interrupt.relink cfg false attempt.relink with
        | .error fault => .error fault
        | .ok s =>
          if s.mode = .suspend ∨ s.mode = .terminated then .ok (attempts, s)
          else directSendLoop cfg relink attempts s
      else .ok (attempts, sent.interrupt)) = Except.ok (rest, s')) :
    Attempts cfg relink attempt attempts s s' := by
  split_ifs at h with hrelink
  · split at h
    · cases h
    · next again hagain =>
      split_ifs at h with hmode
      · cases h
        exact .given outcome sent hsend hfails hrelink hagain hmode
      · exact .retried outcome sent again rest hsend hfails hrelink hagain hmode h
  · cases h
    exact .failed outcome sent hsend hfails (by simpa using hrelink) rfl

theorem directSendLoop_cases (h : directSendLoop cfg relink (attempt :: attempts) s = .ok (rest, s')) :
    Attempts cfg relink attempt attempts s s' := by
  rw [directSendLoop] at h
  cases hsend : s.sendPacket cfg attempt.answer with
  | error fault =>
    rw [hsend] at h
    cases h
  | ok result =>
    obtain ⟨outcome, sent⟩ := result
    rw [hsend] at h
    cases outcome with
    | completeSend =>
      cases h
      exact .complete hsend
    | backpressure =>
      cases h
      exact .clogged _ sent hsend (.inl rfl) rfl
    | partialSend =>
      cases h
      exact .clogged _ sent hsend (.inr rfl) rfl
    | peerLost => exact failed_cases hsend rfl h
    | sendError => exact failed_cases hsend rfl h

end

section

variable {relink exclusive : Bool} {e : ε} {attempts : List Attempt}

theorem nextPiece_whole (hsize : cfg.maxMessageSize = 0) (e : ε) (s : Strategy ε) :
    nextPiece cfg true none e s =
      (e, none, { s with header := { s.header with lastFragment := false } }) := by
  simp [nextPiece, hsize]

theorem appendLoop_done (fuel : Nat) (e : ε) (s : Strategy ε) :
    appendLoop cfg relink exclusive (fuel + 1) false none e attempts s = .ok s := by
  simp [appendLoop]

theorem appendLoop_whole (hsize : cfg.maxMessageSize = 0) (fuel : Nat) :
    appendLoop cfg relink exclusive (fuel + 2) true none e attempts s =
      if s.mode = .direct ∨ s.mode = .terminated then
        if looksFull cfg exclusive none (s.append e) then
          (directSend cfg relink attempts (s.append e)).map Prod.snd
        else .ok (s.append e)
      else .ok s := by
  rw [appendLoop]
  by_cases hmode : s.mode = .direct ∨ s.mode = .terminated
  · rw [if_pos ⟨.inl rfl, hmode⟩, if_pos hmode, nextPiece_whole hsize]
    change (if looksFull cfg exclusive none (s.append e) = true then _ else _) = _
    split_ifs
    · split
      · next fault hsend =>
        rw [show directSend cfg relink attempts (s.append e) = _ from hsend]
        rfl
      · next rest sent hsend =>
        rw [show directSend cfg relink attempts (s.append e) = _ from hsend]
        exact appendLoop_done _ _ _
    · exact appendLoop_done _ _ _
  · rw [if_neg (fun hall => hmode hall.2), if_neg hmode]

/-- What `send` does with an element that it does not queue at once. -/
inductive Appends (cfg : Config) (relink : Bool) (e : ε) (attempts : List Attempt)
    (s : Strategy ε) : Strategy ε → Prop
  | collected (mode : s.mode = .direct ∨ s.mode = .terminated)
      (room : looksFull cfg (requiresExclusivePacket e) none (s.append e) = false) :
      Appends cfg relink e attempts s (s.append e)
  | sent (rest : List Attempt) (s' : Strategy ε) (mode : s.mode = .direct ∨ s.mode = .terminated)
      (full : looksFull cfg (requiresExclusivePacket e) none (s.append e) = true)
      (sends : directSend cfg relink attempts (s.append e) = .ok (rest, s')) :
      Appends cfg relink e attempts s s'
  | skipped (mode : ¬ (s.mode = .direct ∨ s.mode = .terminated)) : Appends cfg relink e attempts s s

inductive Sends (cfg : Config) (relink : Bool) (e : ε) (attempts : List Attempt)
    (s : Strategy ε) : Strategy ε → Prop
  | discarded (mode : s.mode = .terminated) (lost : s.gracefulDisconnecting = false) :
      Sends cfg relink e attempts s (s.dataDropped e)
  | refused (live : ¬ (s.mode = .terminated ∧ s.gracefulDisconnecting = false))
      (large : cfg.maxSize < TransportHeader.maxMarshaledSize + elementLength e) :
      Sends cfg relink e attempts s s
  | queued (fits : TransportHeader.maxMarshaledSize + elementLength e ≤ cfg.maxSize)
      (mode : s.mode = .queue ∨ s.mode = .suspend) :
      Sends cfg relink e attempts s { s with queue := s.queue ++ [e] }
  | appended (final : Strategy ε)
      (live : ¬ (s.mode = .terminated ∧ s.gracefulDisconnecting = false))
      (fits : TransportHeader.maxMarshaledSize + elementLength e ≤ cfg.maxSize)
      (mode : ¬ (s.mode = .queue ∨ s.mode = .suspend)) (room : sendsFirst cfg e s = false)
      (appends : Appends cfg relink e attempts s final) :
      Sends cfg relink e attempts s (final.sendDelayedNotifications (matchesPub (publicationId e)))
  | queuedBehind (rest : List Attempt) (ready : Strategy ε)
      (live : ¬ (s.mode = .terminated ∧ s.gracefulDisconnecting = false))
      (fits : TransportHeader.maxMarshaledSize + elementLength e ≤ cfg.maxSize)
      (mode : ¬ (s.mode = .queue ∨ s.mode = .suspend)) (full : sendsFirst cfg e s = true)
      (sends : directSend cfg relink attempts s = .ok (rest, ready)) (now : ready.mode = .queue) :
      Sends cfg relink e attempts s { ready with queue := ready.queue ++ [e] }
  | appendedBehind (rest : List Attempt) (ready final : Strategy ε)
      (live : ¬ (s.mode = .terminated ∧ s.gracefulDisconnecting = false))
      (fits : TransportHeader.maxMarshaledSize + elementLength e ≤ cfg.maxSize)
      (mode : ¬ (s.mode = .queue ∨ s.mode = .suspend)) (full : sendsFirst cfg e s = true)
      (sends : directSend cfg relink attempts s = .ok (rest, ready)) (now : ready.mode ≠ .queue)
      (appends : Appends cfg relink e rest ready final) :
      Sends cfg relink e attempts s (final.sendDelayedNotifications (matchesPub (publicationId e)))

theorem appends_of_loop (hsize : cfg.maxMessageSize = 0) {fuel : Nat}
    (h : appendLoop cfg relink (requiresExclusivePacket e) (fuel + 2) true none e attempts s =
      .ok s') : Appends cfg relink e attempts s s' := by
  rw [appendLoop_whole hsize] at h
  split_ifs at h with hmode hfull
  · obtain ⟨⟨rest, final⟩, hsend, hfinal⟩ := map_eq_ok h
    obtain rfl : final = s' := hfinal
    exact .sent rest final hmode hfull hsend
  · cases h
    exact .collected hmode (by simpa using hfull)
  · cases h
    exact .skipped hmode

theorem send_cases (hsize : cfg.maxMessageSize = 0) (hopen : s.linkReleased = false)
    (h : s.send cfg relink e attempts = .ok s') : Sends cfg relink e attempts s s' := by
  have hclosed : ¬ s.linkReleased = true := by simp [hopen]
  unfold Strategy.send at h
  rw [if_neg hclosed] at h
  simp only [hsize, true_and] at h
  by_cases hlost : s.mode = .terminated ∧ (!s.gracefulDisconnecting) = true
  · rw [if_pos hlost] at h
    cases h
    exact .discarded hlost.1 (by simpa using hlost.2)
  have hlive : ¬ (s.mode = .terminated ∧ s.gracefulDisconnecting = false) := by
    simpa using hlost
  split_ifs at h with hlarge hqueue hfirst
  · cases h
    exact .refused hlive hlarge
  · cases h
    exact .queued (Nat.le_of_not_lt hlarge) hqueue
  · cases hsend : directSend cfg relink attempts s with
    | error fault =>
      rw [hsend] at h
      cases h
    | ok result =>
      obtain ⟨rest, ready⟩ := result
      rw [hsend] at h
      simp only at h
      split_ifs at h with hnow
      · cases h
        exact .queuedBehind rest ready hlive (Nat.le_of_not_lt hlarge) hqueue hfirst hsend hnow
      · obtain ⟨final, hloop, hfinal⟩ := map_eq_ok h
        rw [← hfinal]
        exact .appendedBehind rest ready final hlive (Nat.le_of_not_lt hlarge) hqueue hfirst hsend hnow
          (appends_of_loop hsize hloop)
  · obtain ⟨final, hloop, hfinal⟩ := map_eq_ok h
    rw [← hfinal]
    exact .appended final hlive (Nat.le_of_not_lt hlarge) hqueue (by simpa using hfirst)
      (appends_of_loop hsize hloop)

end

/-- What `send_stop` does. -/
inductive Stops (cfg : Config) (attempts : List Attempt) (s : Strategy ε) : Strategy ε → Prop
  | ignored (n : Nat) : Stops cfg attempts s { s with startCounter := n }
  | notified (n : Nat) (select : ε → Bool) :
      Stops cfg attempts s (({ s with startCounter := n } : Strategy ε).sendDelayedNotifications select)
  | sent (n : Nat) (select : ε → Bool) (rest : List Attempt) (final : Strategy ε)
      (mode : ¬ (s.mode = .queue ∨ s.mode = .suspend)) (length : s.header.length ≠ 0)
      (elems : s.elems ≠ [])
      (sends : directSend cfg true attempts { s with startCounter := n } = .ok (rest, final)) :
      Stops cfg attempts s (final.sendDelayedNotifications select)

theorem sendStop_cases {repoId : Option Nat} {attempts : List Attempt}
    (h : s.sendStop cfg repoId attempts = .ok s') : Stops cfg attempts s s' := by
  unfold Strategy.sendStop at h
  simp only at h
  split_ifs at h with hclosed hmore hlost hqueue hany
  · cases h
    exact .ignored s.startCounter
  · cases h
    exact .ignored _
  · cases h
    exact .ignored _
  · cases h
    exact .ignored _
  · obtain ⟨final, hsent, hfinal⟩ := map_eq_ok h
    obtain ⟨⟨rest, final'⟩, hsend, hsame⟩ := map_eq_ok hsent
    obtain rfl : final' = final := hsame
    rw [← hfinal]
    exact .sent _ _ rest final' hqueue hany.1 hany.2 hsend
  · obtain ⟨final, hsent, hfinal⟩ := map_eq_ok h
    cases hsent
    rw [← hfinal]
    exact .notified _ _

/-- The packet that `perform_work` sends. -/
def Strategy.workPacket (cfg : Config) (s : Strategy ε) : Strategy ε :=
  if s.header.length = 0 then (getPacketElems cfg s.queue s).preparePacket cfg else s

/-- What `perform_work` does. -/
inductive Works (cfg : Config) (attempt : Attempt) (s : Strategy ε) : Strategy ε → Prop
  | ignored (mode : ¬ (s.mode = .queue ∨ s.mode = .suspend)) : Works cfg attempt s s
  | drained (mode : s.mode = .queue ∨ s.mode = .suspend) (length : s.header.length = 0)
      (queue : s.queue = []) : Works cfg attempt s { s with mode := .direct }
  | finished (sent : Strategy ε) (mode : s.mode = .queue ∨ s.mode = .suspend)
      (work : ¬ (s.header.length = 0 ∧ s.queue = []))
      (sends : (s.workPacket cfg).sendPacket cfg attempt.answer = .ok (.completeSend, sent))
      (queue : sent.queue = []) :
      Works cfg attempt s
        (({ sent with mode := .direct } : Strategy ε).sendDelayedNotifications fun _ => true)
  | failed (outcome : Outcome) (sent s' : Strategy ε) (mode : s.mode = .queue ∨ s.mode = .suspend)
      (work : ¬ (s.header.length = 0 ∧ s.queue = []))
      (sends : (s.workPacket cfg).sendPacket cfg attempt.answer = .ok (outcome, sent))
      (fails : outcome.fails = true)
      (relinks : (sent.sendDelayedNotifications fun _ => true).relink cfg true attempt.relink =
        .ok s') : Works cfg attempt s s'
  | unfinished (outcome : Outcome) (sent : Strategy ε) (mode : s.mode = .queue ∨ s.mode = .suspend)
      (work : ¬ (s.header.length = 0 ∧ s.queue = []))
      (sends : (s.workPacket cfg).sendPacket cfg attempt.answer = .ok (outcome, sent))
      (holds : outcome.fails = false) (queue : outcome = .completeSend → sent.queue ≠ []) :
      Works cfg attempt s (sent.sendDelayedNotifications fun _ => true)

theorem performWork_cases {attempt : Attempt} {outcome : WorkOutcome}
    (h : s.performWork cfg attempt = .ok (outcome, s')) : Works cfg attempt s s' := by
  unfold Strategy.performWork at h
  by_cases hterminated : s.mode = .terminated
  · rw [if_pos hterminated] at h
    cases h
    apply Works.ignored
    rw [hterminated]
    decide
  rw [if_neg hterminated] at h
  by_cases hmode : s.mode ≠ .queue ∧ s.mode ≠ .suspend
  · rw [if_pos hmode] at h
    cases h
    exact .ignored (by tauto)
  rw [if_neg hmode] at h
  by_cases hdrained : s.header.length = 0 ∧ s.queue = []
  · rw [if_pos hdrained] at h
    cases h
    exact .drained (by tauto) hdrained.1 hdrained.2
  · rw [if_neg hdrained] at h
    have hqueue : s.mode = .queue ∨ s.mode = .suspend := by tauto
    dsimp only at h
    split at h
    · cases h
    · next sending sent hsend =>
      replace hsend : (s.workPacket cfg).sendPacket cfg attempt.answer = .ok (sending, sent) := hsend
      by_cases hdone : sending = .completeSend ∧ sent.queue = []
      · have hempty : sent.queue.isEmpty = true := by simp [hdone.2]
        simp only [hdone.1, hempty, decide_true, Bool.and_self, if_true] at h
        rw [hdone.1] at hsend
        cases h
        exact .finished sent hqueue hdrained hsend hdone.2
      · have hmore : (decide (sending = .completeSend) && sent.queue.isEmpty) = false := by
          simpa using hdone
        simp only [hmore, Bool.false_eq_true, if_false] at h
        split_ifs at h with hfails hback
        · cases hrelink : (sent.sendDelayedNotifications fun _ => true).relink cfg true
              attempt.relink with
          | error fault =>
            rw [hrelink] at h
            cases h
          | ok final =>
            rw [hrelink] at h
            have hfinal : final = s' := by
              simp only at h
              split_ifs at h <;> cases h <;> rfl
            rw [← hfinal]
            exact .failed sending sent final hqueue hdrained hsend (by simpa [Outcome.fails] using hfails)
              hrelink
        · cases h
          exact .unfinished sending sent hqueue hdrained hsend (by simpa [Outcome.fails] using hfails)
            (fun hcomplete hnil => hdone ⟨hcomplete, hnil⟩)
        · cases h
          exact .unfinished sending sent hqueue hdrained hsend (by simpa [Outcome.fails] using hfails)
            (fun hcomplete hnil => hdone ⟨hcomplete, hnil⟩)

end OpenDDS.Source.SendStrategy
