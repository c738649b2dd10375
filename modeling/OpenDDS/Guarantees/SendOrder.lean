import OpenDDS.Guarantees.SentStream

/-!
# The order of the elements

Elements are sent in the order in which they were passed to `send`, also when the connection
does not take them at once and the strategy is suspended. `resume_send` goes back to
`MODE_DIRECT` without a look at the queue: what came in the meantime is overtaken. Elements
that are not recognized by `adjust_packet_after_send` are sent again, and one that does not
fit into a packet is not sent at all.
-/
namespace OpenDDS.Guarantees.SendOrder

open Library Library.Folds Source Source.SendStrategy PacketSending PreparedPackets
open SentStream
open ElementFates (Performs passed passed_append smallPackets element)

variable {ε : Type} [QueueElement ε] {cfg : Config} {s s' : Strategy ε} {calls : List (Call ε)}

/-- The elements that have their first byte among the first `n`. -/
def startedElements : Nat → List ε → List ε
  | _, [] => []
  | n, e :: es => if 0 < n then e :: startedElements (n - elementLength e) es else []

/-- The elements of a packet whose first byte was handed to `send_bytes`. -/
def startedOf (p : Packet ε) : List ε := startedElements (p.handed - p.header.length) p.elements

/-- The elements whose first byte was handed to `send_bytes`, in this order. -/
def started (s : Strategy ε) : List ε := (s.packets ++ s.current.toList).flatMap startedOf

theorem startedElements_isPrefix (n : Nat) (es : List ε) : startedElements n es <+: es := by
  induction es generalizing n with
  | nil => exact List.prefix_rfl
  | cons e es ih =>
    unfold startedElements
    split_ifs
    · exact (List.prefix_cons_inj e).mpr (ih _)
    · exact List.nil_prefix

theorem startedElements_all {n : Nat} {es : List ε} (hes : ∀ e ∈ es, Sendable e)
    (hn : elementsLength es ≤ n) : startedElements n es = es := by
  induction es generalizing n with
  | nil => rfl
  | cons e es ih =>
    have hsum : elementsLength (e :: es) = elementLength e + elementsLength es := by
      simp [elementsLength]
    have hpos := (hes e (by simp)).length_pos
    rw [startedElements, if_pos (by omega), ih (fun x hx => hes x (by simp [hx])) (by omega)]

/-- What keeps the order: elements that are recognized and fit into a packet, and no packet or
queue that `resume_send` leaves behind. -/
def InTurn (cfg : Config) (s : Strategy ε) : Call ε → Prop
  | .send _ e _ => Sendable e ∧ TransportHeader.maxMarshaledSize + elementLength e ≤ cfg.maxSize
  | .resumeSend =>
    s.mode = .suspend → s.modeBeforeSuspend = .direct → s.queue = [] ∧ underWay s = false
  | _ => True

instance (cfg : Config) (s : Strategy ε) (call : Call ε) : Decidable (InTurn cfg s call) := by
  cases call <;> unfold InTurn <;> infer_instance

def PerformsInTurn (cfg : Config) (s : Strategy ε) (call : Call ε) (s' : Strategy ε) : Prop :=
  Performs cfg s call s' ∧ Answered call ∧ InTurn cfg s call

theorem arrival_inTurn {call : Call ε} (h : InTurn cfg s call) : arrival cfg call = passed [call] := by
  cases call with
  | send relink e attempts => exact if_neg fun hlarge => Nat.not_lt.mpr h.2 hlarge.2
  | _ => rfl

theorem run_inTurn (hsize : cfg.maxMessageSize = 0) (hword : cfg.maxSize < 2 ^ 32)
    (hrun : Run (create cfg.host) (PerformsInTurn cfg) calls s) :
    Flowing cfg 0 False (passed calls) s ∧ ∀ e ∈ passed calls, Sendable e := by
  have hcfg : Roomy cfg 0 := ⟨hword, fun hnot => absurd hsize hnot, Nat.zero_le _⟩
  refine hrun.history (fun calls s => Flowing cfg 0 False (passed calls) s ∧ ∀ e ∈ passed calls, Sendable e)
    ⟨create_flowing cfg 0 False, nofun⟩ ?_
  rintro calls s call s' ⟨hflowing, hes⟩ ⟨hperform, hanswered, hturn⟩
  rw [passed_append]
  constructor
  · rw [← arrival_inTurn hturn]
    refine perform_flowing hcfg hflowing hanswered False.elim ?_ hperform
    cases call with
    | send relink e attempts => exact .of_sendable hsize hturn.1 0
    | performWork attempt => exact fun _ => cutsWell_whole hsize 0 _ _
    | resumeSend => exact hturn
    | _ => trivial
  · intro e he
    rw [List.mem_append] at he
    rcases he with he | he
    · exact hes e he
    · cases call with
      | send relink x attempts =>
        obtain rfl : e = x := by simpa [passed] using he
        exact hturn.1
      | _ => cases he

/-- In `MODE_DIRECT` nothing is queued, and the elements go out in the order they came. -/
theorem sent_in_order (hsize : cfg.maxMessageSize = 0) (hword : cfg.maxSize < 2 ^ 32)
    (hrun : Run (create cfg.host) (PerformsInTurn cfg) calls s) :
    (s.mode = .direct → s.queue = []) ∧ started s <+: passed calls := by
  obtain ⟨hflowing, hes⟩ := run_inTurn hsize hword hrun
  obtain ⟨extra, hpacks, hflows, -⟩ := hflowing.flows
  refine ⟨fun hdirect => (hflowing.direct hdirect).1, ?_⟩
  have horder := hflows.order hsize
  have hsent : ∀ p ∈ s.packets, startedOf p = p.elements := by
    intro p hp
    have hfull := hflows.full p hp
    have hhanded := (hpacks.recorded.packets p (by simp [hp])).handed
    rw [hfull, Packet.size] at hhanded
    refine startedElements_all (fun e he => hes e ?_) (by omega)
    rw [horder]
    simp only [List.flatMap_append, List.mem_append, List.mem_flatMap]
    exact .inl (.inl ⟨p, hp, he⟩)
  have hpackets : s.packets.flatMap startedOf = s.packets.flatMap Packet.elements :=
    List.flatMap_congr hsent
  have hcurrent : s.current.toList.flatMap startedOf <+: s.current.toList.flatMap Packet.elements := by
    cases s.current with
    | none => exact List.prefix_rfl
    | some p =>
      have hbegins : startedOf p <+: p.elements := startedElements_isPrefix _ p.elements
      simpa using hbegins
  rw [started, List.flatMap_append, hpackets, horder, List.flatMap_append]
  exact ((List.prefix_append_right_inj _).mpr hcurrent).trans (List.prefix_append _ _)

section

theorem performsInTurn_of (s : Strategy ε) (call : Call ε) (after : Strategy ε)
    (h : (if answers call && InTurn cfg s call then (s.perform cfg call).toOption else none) =
      some after) : PerformsInTurn cfg s call after := by
  simp only [Bool.and_eq_true, decide_eq_true_eq] at h
  split_ifs at h with hgood
  exact ⟨toOption_eq_some h, answered_of hgood.1, hgood.2⟩

theorem performsAnswered_of (s : Strategy ε) (call : Call ε) (after : Strategy ε)
    (h : (if answers call then (s.perform cfg call).toOption else none) = some after) :
    Performs cfg s call after ∧ Answered call := by
  split_ifs at h with hgood
  exact ⟨toOption_eq_some h, answered_of hgood⟩

/-- An element is passed while the strategy is suspended with a packet sent in part, and sent
behind this packet. -/
def suspendedQueueRun : List (Call WholeElement) :=
  [.sendStart, .send true (element 1 false) [], .sendStop none [⟨.sent 20, .unchanged⟩],
    .suspendSend, .send true (element 2 false) [], .resumeSend, .performWork ⟨.sent 7, .unchanged⟩,
    .performWork ⟨.sent 10, .unchanged⟩]

theorem sent_in_order_suspended :
    ∃ s, Run (create smallPackets.host) (PerformsInTurn smallPackets) suspendedQueueRun s ∧
      (s.mode = .direct → s.queue = []) ∧ started s <+: passed suspendedQueueRun := by
  obtain ⟨s, hs⟩ : ∃ s, suspendedQueueRun.foldlM (fun s call =>
      if answers call && InTurn smallPackets s call then
        (Strategy.perform smallPackets s call).toOption else none)
      (create smallPackets.host) = some s := Option.isSome_iff_exists.mp (by decide)
  have hrun := Run.follow performsInTurn_of .start hs
  exact ⟨s, hrun, sent_in_order rfl (by decide) hrun⟩

/-- An element is passed while the strategy is suspended, and another one after it was resumed. -/
def resumedDirectRun : List (Call WholeElement) :=
  [.suspendSend, .send true (element 1 false) [], .resumeSend,
    .send true (element 2 true) [⟨.sent 27, .unchanged⟩]]

/-- The first element is left in the queue of a strategy in `MODE_DIRECT`, and the second one was
sent. -/
theorem queue_overtaken :
    ∃ s, Run (create smallPackets.host)
        (fun s call s' => Performs smallPackets s call s' ∧ Answered call) resumedDirectRun s ∧
      s.mode = .direct ∧ s.queue = [element 1 false] ∧ started s = [element 2 true] ∧
      ¬ started s <+: passed resumedDirectRun := by
  obtain ⟨s, hs, hend⟩ : ∃ s, resumedDirectRun.foldlM (fun s call =>
      if answers call then (Strategy.perform smallPackets s call).toOption else none)
      (create smallPackets.host) = some s ∧ decide (s.mode = .direct ∧
        s.queue = [element 1 false] ∧ started s = [element 2 true]) = true :=
    Option.map_eq_some_iff.mp (by decide)
  obtain ⟨hmode, hqueue, hstarted⟩ := of_decide_eq_true hend
  refine ⟨s, Run.follow performsAnswered_of .start hs, hmode, hqueue, hstarted, ?_⟩
  rw [hstarted]
  decide

end

end OpenDDS.Guarantees.SendOrder
