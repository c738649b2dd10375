import OpenDDS.Library.Run
import OpenDDS.Source.WriterThreads

/-!
# Every sample in one place

The lists of a container whose publisher is never suspended: each is a well-formed doubly
linked list, no two share an element, the samples of an instance are each on exactly one
of the unsent, sending and sent lists and no more than the depth, and `release_buffer`
gets an element once and on none of these lists.

`reenqueue_all` breaks this when it skips samples: a copy keeps the links of its original
where the append does not overwrite them, so the first copy points back into the list of
its original, or the last one forward. Two more ways out are in `obtain_buffer`. A writer
that is woken at shutdown or after its deadline returns a buffer although there is no
space, with its element still on the waiting list; and one that waited for the resource
limits does not look at the depth of its instance again.
-/
namespace OpenDDS.Guarantees.SamplePlacement

open Library Library.LinkedList Source Source.DataWriter

structure WellPlaced (limits : ContainerLimits) (c : Container) (lists : SendState → List Nat)
    (owned : Nat → List Nat) : Prop where
  linked : ∀ state, c.elements.Sends (c.lists state) (lists state) ∧ (lists state).Nodup
  disjoint : ∀ s t, s ≠ t → List.Disjoint (lists s) (lists t)
  samples : ∀ i ∈ c.instances, c.elements.Keeps i.samples (owned i.instanceHandle)
  placed : ∀ i ∈ c.instances, ∀ a ∈ owned i.instanceHandle,
    ∃! state, state ∈ [SendState.unsent, .sending, .sent] ∧ a ∈ lists state
  apart : ∀ i ∈ c.instances, ∀ a ∈ owned i.instanceHandle, a ∉ lists .released ∧ a ∉ lists .resend
  depth : ∀ i ∈ c.instances, i.samples.size ≤ limits.depth
  released : c.Accounted

def InOnePlace (limits : ContainerLimits) (c : Container) : Prop :=
  ∃ lists owned, WellPlaced limits c lists owned

def samplesOf (c : Container) (state : SendState) : List Nat :=
  (walk c.elements.nextSendSample c.fuel (c.lists state).head).getD []

/-- The samples that `reenqueue_all` copies. -/
def copied (c : Container) (kept : Nat → Bool) : List Nat :=
  (samplesOf c .sending).filter kept ++ (samplesOf c .sent).filter kept

/-- The condition under which an operation keeps every sample in one place: the first
sample copied to an empty `resend_data_` is the head of its list and the last one copied
the tail of its list, a wait in `obtain_buffer` ends as it should, and no writer waits
when `unregister_all` is called. -/
def Orderly (limits : ContainerLimits) (w : DataWriter) : Operation → Prop
  | .reenqueueAll kept _ =>
    ((w.container.lists .resend).head = none →
      (copied w.container kept).head?.bind w.container.elements.previousSendSample = none) ∧
    (copied w.container kept).getLast?.bind w.container.elements.nextSendSample = none
  | .wake element result expired =>
    ∀ t ∈ w.findWriter element, EndsWait limits w.container t result expired
  | .unregisterAll => w.waiting = []
  | _ => True

/-- An operation of a writer that is never suspended, made as its callers may make it. -/
def Performs (limits : ContainerLimits) (w : DataWriter) (op : Operation) (w' : DataWriter) :
    Prop :=
  op.publishing = true ∧ w.perform limits op = some w'

def PerformsOrderly (limits : ContainerLimits) (w : DataWriter) (op : Operation)
    (w' : DataWriter) : Prop :=
  Performs limits w op w' ∧ Orderly limits w op

variable {limits : ContainerLimits} {c : Container} {w w' : DataWriter} {p p' : Placement}

theorem inOnePlace (h : c.Settled limits p) : InOnePlace limits c := by
  refine ⟨p.lists, fun n => p.queues (n, .samples), ?_⟩
  constructor
  · exact fun state => ⟨h.sends state, h.lists.nodup state⟩
  · intro s t hne x hs ht
    exact hne (h.lists.unique hs ht)
  · exact fun i hi => h.keeps i hi .samples
  · intro i hi a ha
    obtain ⟨-, hactive⟩ := (h.owned _ a).mp ha
    have hunique : ∀ {s}, a ∈ p.lists s → ∀ t, (t ∈ [SendState.unsent, .sending, .sent] ∧
        a ∈ p.lists t) → t = s := fun hs t ht => h.lists.unique ht.2 hs
    rcases hactive with hin | hin | hin
    · exact ⟨.unsent, ⟨by simp, hin⟩, hunique hin⟩
    · exact ⟨.sending, ⟨by simp, hin⟩, hunique hin⟩
    · exact ⟨.sent, ⟨by simp, hin⟩, hunique hin⟩
  · intro i hi a ha
    obtain ⟨-, hactive⟩ := (h.owned _ a).mp ha
    have hother : ∀ t, t ≠ .unsent → t ≠ .sending → t ≠ .sent → a ∉ p.lists t := by
      intro t h₁ h₂ h₃ hin
      rcases hactive with hin' | hin' | hin'
      · exact h₁ (h.lists.unique hin hin')
      · exact h₂ (h.lists.unique hin hin')
      · exact h₃ (h.lists.unique hin hin')
    exact ⟨hother .released (by decide) (by decide) (by decide),
      hother .resend (by decide) (by decide) (by decide)⟩
  · intro i hi
    have hsize : i.samples.size = (p.queues (i.instanceHandle, .samples)).length :=
      (h.keeps i hi .samples).size
    have hdepth := h.depth i.instanceHandle
    omega
  · exact h.accounted

/-- The transport has exactly what is being sent or was released while it was. -/
structure Orderliness (limits : ContainerLimits) (w : DataWriter) (p : Placement) : Prop where
  threads : w.Threads limits p
  transport : ∀ a, a ∈ w.transport ↔ p.InUse a
  publishing : w.suspendDepthCount = 0

theorem samplesOf_eq (h : c.Settled limits p) (state : SendState) :
    samplesOf c state = p.lists state := by
  have hwalk := walk_path (h.sends state).forward (h.length_le state)
  rw [samplesOf, (h.sends state).head, hwalk, Option.getD_some]

theorem copied_eq (h : c.Settled limits p) (kept : Nat → Bool) : copied c kept = p.copied kept := by
  rw [copied, samplesOf_eq h, samplesOf_eq h, Placement.copied]

theorem sendOrKeep_eq {list : Header Nat} {xs : List Nat} (h : w.suspendDepthCount = 0)
    (hwalk : walk w.container.elements.nextSendSample w.container.fuel list.head = some xs) :
    w.sendOrKeep list = some { w with transport := w.transport ++ xs } := by
  simp [sendOrKeep, h, send, hwalk]

theorem Orderliness.frame (h : Orderliness limits w p) (settled : c.Settled limits p')
    (spares : Container.Spares [] w.container c p p') (idle : w.holder = .idle)
    (inUse : ∀ a, p'.InUse a ↔ p.InUse a) : Orderliness limits { w with container := c } p' where
  threads := by
    apply h.threads.frame
    · exact settled
    · exact spares
    · rfl
    · rw [idle]
      trivial
  transport a := (h.transport a).trans (inUse a).symm
  publishing := h.publishing

theorem Orderliness.of_sheds {es : List Nat} (h : Orderliness limits w p)
    (threads : w'.Threads limits p') (sheds : p.Sheds es p') (transport : w'.transport = w.transport)
    (suspended : w'.suspendDepthCount = w.suspendDepthCount) : Orderliness limits w' p' where
  threads := threads
  transport a := by rw [transport, h.transport, sheds.inUse]
  publishing := suspended.trans h.publishing

section

variable (h : Orderliness limits w p)
include h

theorem Orderliness.enqueue (hallowed : w.Allowed .enqueue) :
    ∃ w' p', w.step limits .enqueue = some w' ∧ Orderliness limits w' p' := by
  obtain ⟨w', p', a, -, heq, hthreads, -, -, hlists, -, htransport, hsuspended, -⟩ :=
    enqueue_threads h.threads hallowed
  refine ⟨w', p', heq, hthreads, ?_, hsuspended.trans h.publishing⟩
  intro x
  rw [htransport, h.transport, Placement.InUse, Placement.InUse, hlists]
  simp

theorem Orderliness.sendUnsent (hallowed : w.Allowed .sendUnsent) :
    ∃ w' p', w.step limits .sendUnsent = some w' ∧ Orderliness limits w' p' := by
  have hunsent : p.lists .unsent ≠ [] := by
    have hprogress := h.threads.holder
    rwa [show w.holder = .enqueued from hallowed] at hprogress
  obtain ⟨list, c, heq, hsettled, hspares, hwalk⟩ :=
    Container.getUnsentData_settled h.threads.settled hunsent
  have hsend := sendOrKeep_eq (w := { w with container := c, holder := .idle }) h.publishing hwalk
  refine ⟨{ w with container := c, holder := .idle, transport := w.transport ++ p.lists .unsent },
    p.pour .sending .unsent, ?_, ?_, ?_, h.publishing⟩
  · simp only [step, heq, Option.bind_eq_bind, Option.bind_some]
    exact hsend
  · apply h.threads.frame
    · exact hsettled
    · exact hspares
    · rfl
    · trivial
  · simp only [List.mem_append, h.transport, Placement.InUse, Placement.pour]
    simp
    tauto

theorem Orderliness.sendResend (hallowed : w.Allowed .sendResend) :
    ∃ w' p', w.step limits .sendResend = some w' ∧ Orderliness limits w' p' := by
  obtain ⟨list, c, heq, hsettled, hspares, hwalk⟩ :=
    Container.getResendData_settled h.threads.settled
  have hsend := sendOrKeep_eq (w := { w with container := c }) h.publishing hwalk
  refine ⟨{ w with container := c, transport := w.transport ++ p.lists .resend },
    p.pour .released .resend, ?_, ?_, ?_, h.publishing⟩
  · simp only [step, heq, Option.bind_eq_bind, Option.bind_some]
    exact hsend
  · apply h.threads.frame
    · exact hsettled
    · exact hspares
    · rfl
    · rw [show w.holder = .idle from hallowed]
      trivial
  · simp only [List.mem_append, h.transport, Placement.InUse, Placement.pour]
    simp
    tauto

theorem Orderliness.reenqueueAll {kept : Nat → Bool} {addresses : List Nat}
    (hallowed : w.Allowed (.reenqueueAll kept addresses))
    (horderly : Orderly limits w (.reenqueueAll kept addresses)) :
    ∃ w' p', w.step limits (.reenqueueAll kept addresses) = some w' ∧ Orderliness limits w' p' := by
  obtain ⟨hidle, hfresh, hnew, hsize⟩ := hallowed
  obtain ⟨hfirst, hlast⟩ := horderly
  have hsettled := h.threads.settled
  rw [copied_eq hsettled] at hfirst hlast
  have hhead : p.lists .resend = [] → (w.container.lists .resend).head = none := by
    intro hempty
    rw [(hsettled.sends .resend).head, hempty]
    rfl
  have henough : (p.copied kept).length ≤ addresses.length := by
    have hsending := (hsettled.sends .sending).size
    have hsent := (hsettled.sends .sent).size
    have hle := List.length_filter_le kept (p.lists .sending)
    have hle' := List.length_filter_le kept (p.lists .sent)
    rw [Placement.copied, List.length_append]
    omega
  obtain ⟨c, cs, heq, hsettled', hspares⟩ := Container.reenqueueAll_settled kept hsettled hfresh
    hnew henough (fun hempty => hfirst (hhead hempty)) hlast
  refine ⟨{ w with container := c }, p.addCopies cs, by simp [step, heq], ?_⟩
  apply h.frame hsettled' hspares hidle
  simp [Placement.InUse, Placement.addCopies]

theorem Orderliness.givesBack {a : Nat} (settled : c.Settled limits p')
    (spares : Container.Spares [] w.container c p p') (hback : Container.GivesBack a p p') :
    Orderliness limits
      { w with container := c, transport := w.transport.filter (· ≠ a) } p' where
  threads := givesBack_threads h.threads settled spares hback
  transport x := by
    rw [List.mem_filter, h.transport, hback.inUse, decide_eq_true_eq]
  publishing := h.publishing

theorem Orderliness.unregisterAll (hallowed : w.Allowed .unregisterAll) (hnone : w.waiting = []) :
    ∃ w' p', w.step limits .unregisterAll = some w' ∧ Orderliness limits w' p' := by
  have hwaiting : ∀ n, p.queues (n, .waitingList) = [] := by
    intro n
    apply List.eq_nil_iff_forall_not_mem.mpr
    intro x hx
    obtain ⟨t, ht, -⟩ := (h.threads.queued n x).mp hx
    rw [hnone] at ht
    cases ht
  obtain ⟨c, p', heq, hsettled, huse, hwaiting'⟩ :=
    Container.unregisterAll_settled h.threads.settled hwaiting
  refine ⟨{ w with container := c }, p', by simp [step, heq], ?_, ?_, h.publishing⟩
  · constructor
    · exact hsettled
    · simp [hnone]
    · simp [hnone]
    · simp [hnone, hwaiting']
    · rw [show w.holder = .idle from hallowed]
      trivial
  · exact fun a => (h.transport a).trans (huse a).symm

/-- Every operation that is allowed and meets the condition has a result, and keeps the
placement. -/
theorem Orderliness.step {op : Operation} (hpublishing : op.publishing = true)
    (hallowed : w.Allowed op) (horderly : Orderly limits w op) :
    ∃ w' p', w.step limits op = some w' ∧ Orderliness limits w' p' := by
  cases op with
  | registerInstance given next =>
    obtain ⟨hsettled, hspares⟩ :=
      Container.registerInstance_settled given next h.threads.settled
    exact ⟨_, p, rfl, h.frame hsettled hspares hallowed fun _ => Iff.rfl⟩
  | obtainBuffer element handle expired =>
    obtain ⟨w', p', es, heq, hthreads, hsheds, htransport, hsuspended, -⟩ :=
      obtainBuffer_threads expired h.threads hallowed
    exact ⟨w', p', heq, h.of_sheds hthreads hsheds htransport hsuspended⟩
  | wake element result expired =>
    obtain ⟨w', p', heq, hthreads, hsheds, htransport, hsuspended, -⟩ :=
      wake_threads result expired h.threads hallowed horderly
    exact ⟨w', p', heq, h.of_sheds hthreads hsheds htransport hsuspended⟩
  | enqueue => exact h.enqueue hallowed
  | sendUnsent => exact h.sendUnsent hallowed
  | reenqueueAll kept addresses => exact h.reenqueueAll hallowed horderly
  | sendResend => exact h.sendResend hallowed
  | dataDelivered sample =>
    obtain ⟨c, p', heq, hsettled, hspares, hback, -⟩ :=
      Container.dataDelivered_settled h.threads.settled ((h.transport sample).mp hallowed)
    exact ⟨_, p', by simp [DataWriter.step, heq], h.givesBack hsettled hspares hback⟩
  | dataDropped sample droppedByTransport =>
    obtain ⟨c, p', heq, hsettled, hspares, hback⟩ := Container.dataDropped_settled
      droppedByTransport h.threads.settled ((h.transport sample).mp hallowed)
    exact ⟨_, p', by simp [DataWriter.step, heq], h.givesBack hsettled hspares hback⟩
  | dispose handle =>
    obtain ⟨ret, c, p', es, heq, hsettled, hevicts, -⟩ :=
      Container.dispose_settled handle h.threads.settled
    exact ⟨_, p', by simp [DataWriter.step, heq],
      h.frame hsettled hevicts.spares hallowed hevicts.inUse⟩
  | unregisterAll => exact h.unregisterAll hallowed horderly
  | suspendPublications => cases hpublishing
  | resumePublications => cases hpublishing

end

theorem create_orderliness (limits : ContainerLimits) :
    Orderliness limits create ⟨fun _ => [], fun _ => []⟩ where
  threads := by
    have hholds : create.container.Holds ⟨fun _ => [], fun _ => []⟩ := by
      constructor
      · exact fun _ => ⟨⟨rfl, rfl, rfl⟩, trivial, trivial⟩
      · constructor <;> simp
      · simp
      · simp [create]
      · simp [create]
      · simp [create]
      · constructor <;> simp
      · simp
      · simp [create]
    constructor
    · refine { hholds with
        owned := ?_, registered := ?_, waits := ?_, depth := ?_, accounted := ?_ }
      · simp [Placement.Active]
      · simp [Placement.Active]
      · simp
      · simp
      · simp [Container.Accounted, create]
    · simp [create]
    · simp [create]
    · simp [create]
    · trivial
  transport a := by simp [create, Placement.InUse]
  publishing := rfl

theorem orderliness {ops : List Operation} (run : Run create (PerformsOrderly limits) ops w) :
    ∃ p, Orderliness limits w p := by
  apply run.invariant (fun w => ∃ p, Orderliness limits w p)
  · exact ⟨_, create_orderliness limits⟩
  · rintro w op after ⟨p, h⟩ ⟨⟨hpublishing, hperform⟩, horderly⟩
    rw [perform, Option.ite_none_right_eq_some] at hperform
    obtain ⟨hallowed, hstep⟩ := hperform
    obtain ⟨w', p', heq, h'⟩ := h.step hpublishing hallowed horderly
    rw [hstep, Option.some_inj] at heq
    exact ⟨p', heq ▸ h'⟩

/-- In every run whose operations meet the condition, every sample is in one place, and
every further operation that meets it is carried out to its end. -/
theorem samples_in_one_place (limits : ContainerLimits) {ops : List Operation} {w : DataWriter}
    (run : Run create (PerformsOrderly limits) ops w) :
    InOnePlace limits w.container ∧
      ∀ op, op.publishing = true → w.Allowed op → Orderly limits w op →
        ∃ w', w.perform limits op = some w' ∧ InOnePlace limits w'.container := by
  obtain ⟨p, h⟩ := orderliness run
  refine ⟨inOnePlace h.threads.settled, ?_⟩
  intro op hpublishing hallowed horderly
  obtain ⟨w', p', heq, h'⟩ := h.step hpublishing hallowed horderly
  exact ⟨w', by rw [perform, if_pos hallowed, heq], inOnePlace h'.threads.settled⟩

theorem run_performAll {T : DataWriter → Operation → DataWriter → Prop} {ops done : List Operation}
    (htrans : ∀ op ∈ ops, ∀ w w', w.perform limits op = some w' → T w op w')
    (run : Run create T done w) (h : w.performAll limits ops = some w') :
    Run create T (done ++ ops) w' := by
  induction ops generalizing w done with
  | nil =>
    rw [List.append_nil]
    cases h
    exact run
  | cons op ops ih =>
    obtain ⟨w₁, hop, hrest⟩ := Option.bind_eq_some_iff.mp h
    have hfirst := run.next (htrans op List.mem_cons_self _ _ hop)
    have hops := ih (fun op' hop' => htrans op' (List.mem_cons_of_mem _ hop')) hfirst hrest
    simpa using hops

theorem run_of_performAll {ops : List Operation} (hops : ops.all (·.publishing))
    (h : create.performAll limits ops = some w) : Run create (Performs limits) ops w := by
  have htrans : ∀ op ∈ ops, ∀ w w', w.perform limits op = some w' → Performs limits w op w' :=
    fun op hop w w' hperform => ⟨List.all_eq_true.mp hops op hop, hperform⟩
  exact run_performAll htrans .start h

/-- Two samples of one instance are written and delivered. -/
def writtenTwice : List Operation :=
  [.registerInstance none 1,
    .obtainBuffer 10 1 false, .enqueue, .sendUnsent, .dataDelivered 10,
    .obtainBuffer 11 1 false, .enqueue, .sendUnsent, .dataDelivered 11]

/-- A reader for which both samples are kept gets copies of them. -/
theorem samples_in_one_place_resent :
    ∃ w, Run create (PerformsOrderly ⟨2, 0, 0, false⟩)
        (writtenTwice ++ [.reenqueueAll (fun _ => true) [20, 21]]) w ∧
      w.container.elements.nextSendSample 20 = some 21 ∧
      InOnePlace ⟨2, 0, 0, false⟩ w.container := by
  obtain ⟨w, hw⟩ : ∃ w, create.performAll ⟨2, 0, 0, false⟩ writtenTwice = some w :=
    Option.isSome_iff_exists.mp (by decide)
  have hrun : Run create (PerformsOrderly ⟨2, 0, 0, false⟩) writtenTwice w := by
    apply run_performAll _ .start hw
    intro op hop w w' hperform
    simp only [writtenTwice, List.mem_cons, List.not_mem_nil, or_false] at hop
    rcases hop with rfl | rfl | rfl | rfl | rfl | rfl | rfl | rfl | rfl <;>
      exact ⟨⟨rfl, hperform⟩, trivial⟩
  have horderly : Orderly ⟨2, 0, 0, false⟩ w (.reenqueueAll (fun _ => true) [20, 21]) := by
    have hends : (create.performAll ⟨2, 0, 0, false⟩ writtenTwice).map (fun w =>
        ((copied w.container fun _ => true).head?.bind w.container.elements.previousSendSample,
          (copied w.container fun _ => true).getLast?.bind w.container.elements.nextSendSample)) =
        some (none, none) := by decide
    rw [hw, Option.map_some, Option.some_inj, Prod.mk.injEq] at hends
    exact ⟨fun _ => hends.1, hends.2⟩
  obtain ⟨w', hw', hnext⟩ : ∃ w', w.perform ⟨2, 0, 0, false⟩
      (.reenqueueAll (fun _ => true) [20, 21]) = some w' ∧
      w'.container.elements.nextSendSample 20 = some 21 := by
    have hlink : ((create.performAll ⟨2, 0, 0, false⟩ writtenTwice).bind fun w =>
        w.perform ⟨2, 0, 0, false⟩ (.reenqueueAll (fun _ => true) [20, 21])).map
        (fun w => w.container.elements.nextSendSample 20) = some (some 21) := by decide
    rw [hw, Option.bind_some] at hlink
    exact Option.map_eq_some_iff.mp hlink
  have run := hrun.next ⟨⟨rfl, hw'⟩, horderly⟩
  exact ⟨w', run, hnext, (samples_in_one_place _ run).1⟩

/-- Only the first sample is kept for the reader: its copy is the last element of
`resend_data_` and still points to the second sample, which is on `sent_data_`. -/
theorem copy_keeps_link :
    ¬ ∀ (limits : ContainerLimits) (ops : List Operation) (w : DataWriter),
      Run create (Performs limits) ops w → InOnePlace limits w.container := by
  intro claim
  have hperformed : (create.performAll ⟨2, 0, 0, false⟩
      (writtenTwice ++ [.reenqueueAll (· = 10) [20, 21]])).map (fun w =>
        (w.container.lists .resend, w.container.elements.nextSendSample 20)) =
      some (⟨some 20, some 20, 1⟩, some 11) := by decide
  obtain ⟨w, hw, hlinks⟩ := Option.map_eq_some_iff.mp hperformed
  obtain ⟨hresend, hnext⟩ := Prod.mk.inj hlinks
  have hrun := run_of_performAll rfl hw
  obtain ⟨lists, owned, h⟩ := claim _ _ _ hrun
  have hsends := (h.linked .resend).1
  rw [hresend] at hsends
  -- The list of one element that starts with 20 ends there.
  have hlast := hsends.single
  rw [hnext] at hlast
  cases hlast

end OpenDDS.Guarantees.SamplePlacement
