import OpenDDS.Guarantees.SamplePlacement

/-!
# What is written while the publisher is suspended

While its publisher is suspended a writer appends what it writes to
`available_data_list_`, and `send_suspended_data` hands this list to the transport. The
list has only a head and a tail of its own: its elements are those of `sending_data_`
behind what the transport has, over the same links.

An eviction by `obtain_buffer` moves a sample from `sending_data_` to `released_data_` and
leaves `available_data_list_` as it is. In its middle this does no harm, the sample is
merely skipped. When its tail is evicted the next write links the two lists of the
container to each other, and when its head is evicted the transport is handed what comes
behind it on `released_data_`.
-/
namespace OpenDDS.Guarantees.SuspendedPublication

open Library Library.LinkedList Source Source.DataWriter SamplePlacement

/-- The samples that belong to an instance: those that were not evicted. -/
def held (c : Container) : List Nat :=
  c.instances.flatMap fun i =>
    (walk c.elements.nextInstanceSample c.fuel i.samples.head).getD []

/-- `sending_data_` and `released_data_` are well-formed and have no common element. -/
def WellLinked (c : Container) : Prop :=
  ∃ sending released, c.elements.Sends (c.lists .sending) sending ∧
    c.elements.Sends (c.lists .released) released ∧ (sending ++ released).Nodup

/-- What a writer does while its publisher is suspended: it writes, to new instances too,
it disposes instances, and the transport gives samples back. -/
def whileSuspended : Operation → Bool
  | .reenqueueAll _ _ => false
  | .sendResend => false
  | .unregisterAll => false
  | _ => true

/-- A writer with the samples written since its publisher was last suspended. -/
structure Session where
  writer : DataWriter
  written : List Nat

def Session.create : Session := ⟨DataWriter.create, []⟩

def Session.record (s : Session) : Operation → List Nat
  | .enqueue =>
    match s.writer.holder with
    | .obtained element _ => s.written ++ [element]
    | _ => s.written
  | .suspendPublications => if s.writer.suspendDepthCount = 0 then [] else s.written
  | _ => s.written

def Performs (limits : ContainerLimits) (s : Session) (op : Operation) (s' : Session) : Prop :=
  s.writer.perform limits op = some s'.writer ∧ s'.written = s.record op ∧
    (s.writer.suspendDepthCount ≠ 0 → whileSuspended op = true)

/-- The end of `available_data_list_` that an operation uses is on `sending_data_`, and the count
of the suspensions does not overflow. -/
def Attached (w : DataWriter) : Operation → Prop
  | .suspendPublications => w.suspendDepthCount < 32767
  | .sendUnsent => w.suspendDepthCount ≠ 0 →
      ∀ a ∈ w.available.tail, a ∈ samplesOf w.container .sending
  | .resumePublications => w.suspendDepthCount = 1 →
      ∀ a ∈ w.available.head, a ∈ samplesOf w.container .sending
  | _ => True

def PerformsAttached (limits : ContainerLimits) (s : Session) (op : Operation) (s' : Session) :
    Prop :=
  Performs limits s op s' ∧ Orderly limits s.writer op ∧ Attached s.writer op

/-- `resume_publications` hands over `sent`: each sample written while suspended that was
not evicted, once and in the order of writing, and the lists are well-formed after. -/
structure HandsOver (s : Session) (sent : List Nat) (after : DataWriter) : Prop where
  sends : after.transport = s.writer.transport ++ sent
  once : ∀ a ∈ s.written, a ∈ held s.writer.container → sent.count a = 1
  inOrder : sent.filter (fun a => a ∈ s.written ∧ a ∈ held s.writer.container) =
    s.written.filter (· ∈ held s.writer.container)
  linked : WellLinked after.container

variable {limits : ContainerLimits} {c : Container} {w w' : DataWriter} {p p' : Placement}
  {kept withheld written : List Nat}

theorem mem_held (h : c.Settled limits p) (a : Nat) : a ∈ held c ↔ p.Active a := by
  have hsamples : ∀ i ∈ c.instances,
      (walk c.elements.nextInstanceSample c.fuel i.samples.head).getD [] =
        p.queues (i.instanceHandle, .samples) := by
    intro i hi
    have hkeeps : c.elements.Keeps i.samples (p.queues (i.instanceHandle, .samples)) :=
      h.keeps i hi .samples
    rw [hkeeps.head, walk_path hkeeps.forward (h.queue_length_le _), Option.getD_some]
  rw [held, List.mem_flatMap]
  constructor
  · rintro ⟨i, hi, ha⟩
    rw [hsamples i hi] at ha
    exact ((h.owned _ a).mp ha).2
  · intro hactive
    obtain ⟨i, hi, hia⟩ := Container.exists_instance (h.registered a hactive)
    refine ⟨i, hi, ?_⟩
    rw [hsamples i hi]
    exact (h.owned _ a).mpr ⟨hia.symm, hactive⟩

theorem wellLinked (h : c.Settled limits p) : WellLinked c := by
  refine ⟨_, _, h.sends .sending, h.sends .released, ?_⟩
  rw [List.nodup_append]
  refine ⟨h.lists.nodup _, h.lists.nodup _, ?_⟩
  rintro a hsending b hreleased rfl
  exact absurd (h.lists.unique hsending hreleased) (by decide)

/-- The samples on `available_data_list_` since the suspension are `kept`; `withheld` are
those that were evicted before an earlier one ended. All are on `sending_data_` or
`released_data_` and the transport has the rest of these lists; what is left of `kept` on
`sending_data_` is its end. -/
structure Suspension (limits : ContainerLimits) (w : DataWriter) (p : Placement)
    (kept withheld : List Nat) : Prop where
  threads : w.Threads limits p
  inUse : ∀ a, p.InUse a ↔ a ∈ w.transport ∨ a ∈ kept ++ withheld
  outside : ∀ a ∈ w.transport, a ∉ kept ++ withheld
  distinct : (kept ++ withheld).Nodup
  head : w.available.head = kept.head?
  tail : w.available.tail = kept.getLast?
  order : kept.filter (· ∈ p.lists .sending) <:+ p.lists .sending
  count : 0 ≤ w.suspendDepthCount ∧ w.suspendDepthCount ≤ 32767
  resumed : w.suspendDepthCount = 0 → kept = []

/-- The samples written while suspended are on `available_data_list_` in this order, apart
from the one that was only enqueued. -/
structure Records (w : DataWriter) (p : Placement) (kept written : List Nat) : Prop where
  recorded : (kept ++ p.lists .unsent).filter (· ∈ written) = written
  complete : w.holder ≠ .enqueued → ∀ a ∈ p.lists .unsent, a ∉ written

theorem Suspension.not_unsent (h : Suspension limits w p kept withheld) {a : Nat}
    (ha : a ∈ kept ++ withheld) : a ∉ p.lists .unsent := by
  intro hunsent
  rcases (h.inUse a).mpr (.inr ha) with hin | hin
  · exact absurd (h.threads.settled.lists.unique hunsent hin) (by decide)
  · exact absurd (h.threads.settled.lists.unique hunsent hin) (by decide)

theorem suffix_filter {xs : List Nat} (h : kept.filter (· ∈ xs) <:+ xs) (stays : Nat → Bool) :
    kept.filter (· ∈ xs.filter stays) <:+ xs.filter stays := by
  have hboth : kept.filter (· ∈ xs.filter stays) = (kept.filter (· ∈ xs)).filter stays := by
    simp [Bool.and_comm]
  rw [hboth]
  exact h.filter stays

theorem Suspension.quiet (h : Suspension limits w p kept withheld) (threads : w'.Threads limits p')
    (inUse : ∀ a, p'.InUse a ↔ p.InUse a) (transport : w'.transport = w.transport)
    (suspended : w'.suspendDepthCount = w.suspendDepthCount)
    (available : w'.available = w.available) (stays : Nat → Bool)
    (sending : p'.lists .sending = (p.lists .sending).filter stays) :
    Suspension limits w' p' kept withheld where
  threads := threads
  inUse a := by rw [inUse, h.inUse, transport]
  outside := by
    rw [transport]
    exact h.outside
  distinct := h.distinct
  head := available ▸ h.head
  tail := available ▸ h.tail
  order := by
    rw [sending]
    exact suffix_filter h.order stays
  count := suspended ▸ h.count
  resumed := suspended ▸ h.resumed

section

variable (h : Suspension limits w p kept withheld) (settled : c.Settled limits p')
  (spares : Container.Spares [] w.container c p p')
include h settled spares

theorem Suspension.frame {es : List Nat} (sheds : p.Sheds es p') (idle : w.holder = .idle) :
    Suspension limits { w with container := c } p' kept withheld := by
  have hthreads : Threads limits { w with container := c } p' := by
    apply h.threads.frame
    · exact settled
    · exact spares
    · rfl
    · rw [idle]
      trivial
  exact h.quiet hthreads sheds.inUse rfl rfl rfl _ sheds.sending

theorem Suspension.givesBack {a : Nat} (hback : Container.GivesBack a p p') (hmem : a ∈ w.transport) :
    Suspension limits { w with container := c, transport := w.transport.filter (· ≠ a) } p'
      kept withheld where
  threads := givesBack_threads h.threads settled spares hback
  inUse x := by
    rw [hback.inUse, h.inUse, List.mem_filter, decide_eq_true_eq]
    have hkept : x ∈ kept ++ withheld → x ≠ a := by
      rintro hx rfl
      exact h.outside x hmem hx
    tauto
  outside x hx := h.outside x (List.mem_filter.mp hx).1
  distinct := h.distinct
  head := h.head
  tail := h.tail
  order := by
    rw [hback.sending, (h.threads.settled.lists.nodup _).erase_eq_filter]
    exact suffix_filter h.order _
  count := h.count
  resumed := h.resumed

end

theorem Records.idle (h : Records w p kept written) (hidle : w.holder = .idle) :
    kept.filter (· ∈ written) = written := by
  have hnone : (p.lists .unsent).filter (· ∈ written) = [] := by
    apply List.filter_eq_nil_iff.mpr
    intro a ha
    simpa using h.complete (by simp [hidle]) a ha
  have hall := h.recorded
  rwa [List.filter_append, hnone, List.append_nil] at hall

theorem Records.shed {es : List Nat} (h : Records w p kept written) (sheds : p.Sheds es p')
    (hidle : w.holder = .idle) : Records w' p' kept written := by
  have hnone : ∀ a ∈ p'.lists .unsent, a ∉ written := by
    intro a ha
    rw [sheds.unsent] at ha
    exact h.complete (by simp [hidle]) a (List.mem_filter.mp ha).1
  constructor
  · have hfilter : (p'.lists .unsent).filter (· ∈ written) = [] := by
      apply List.filter_eq_nil_iff.mpr
      intro a ha
      simpa using hnone a ha
    rw [List.filter_append, hfilter, List.append_nil]
    exact h.idle hidle
  · exact fun _ => hnone

theorem Records.givesBack {a : Nat} (h : Records w p kept written)
    (hs : Suspension limits w p kept withheld) (hback : Container.GivesBack a p p')
    (hmem : a ∈ w.transport) (hholder : w'.holder = w.holder) : Records w' p' kept written := by
  have hnot : a ∉ written := by
    intro hin
    rw [← h.recorded, List.mem_filter, List.mem_append] at hin
    rcases hin.1 with hin | hin
    · exact hs.outside a hmem (List.mem_append_left _ hin)
    · rcases (hs.inUse a).mpr (.inl hmem) with huse | huse
      · exact absurd (hs.threads.settled.lists.unique hin huse) (by decide)
      · exact absurd (hs.threads.settled.lists.unique hin huse) (by decide)
  rcases hback.unsent with hunsent | hunsent
  · constructor
    · rw [hunsent]
      exact h.recorded
    · rw [hunsent, hholder]
      exact h.complete
  · constructor
    · rw [hunsent, ← List.append_assoc, List.filter_append, h.recorded]
      simp [hnot]
    · intro hne x hx
      rw [hunsent, List.mem_append, List.mem_singleton] at hx
      rcases hx with hx | rfl
      · exact h.complete (hholder ▸ hne) x hx
      · exact hnot

theorem Suspension.enqueue (h : Suspension limits w p kept withheld)
    (hr : w.suspendDepthCount ≠ 0 → Records w p kept written) (hallowed : w.Allowed .enqueue) :
    ∃ w' p', w.step limits .enqueue = some w' ∧ Suspension limits w' p' kept withheld ∧
      (w'.suspendDepthCount ≠ 0 → Records w' p' kept (Session.record ⟨w, written⟩ .enqueue)) := by
  obtain ⟨w', p', a, handle, heq, hthreads, hobtained, hloose, hlists, hholder, htransport,
    hsuspended, havailable⟩ := enqueue_threads h.threads hallowed
  have hsending : p'.lists .sending = (p.lists .sending).filter fun _ => true := by
    simp [hlists]
  refine ⟨w', p', heq, ?_, ?_⟩
  · apply h.quiet hthreads _ htransport hsuspended havailable _ hsending
    simp [Placement.InUse, hlists]
  · intro hne
    have hrecord : Session.record ⟨w, written⟩ .enqueue = written ++ [a] := by
      simp [Session.record, hobtained]
    have hrecords := hr (hsuspended ▸ hne)
    have hnew : ∀ x ∈ kept ++ p.lists .unsent, x ≠ a := by
      rintro x hx rfl
      rcases List.mem_append.mp hx with hkept | hunsent
      · rcases (h.inUse x).mpr (.inr (List.mem_append_left _ hkept)) with huse | huse
        · exact hloose _ huse
        · exact hloose _ huse
      · exact hloose _ hunsent
    rw [hrecord]
    constructor
    · have hold : (kept ++ p.lists .unsent).filter (· ∈ written ++ [a]) =
          (kept ++ p.lists .unsent).filter (· ∈ written) := by
        apply List.filter_congr
        intro x hx
        simp [hnew x hx]
      rw [hlists, Function.update_self, ← List.append_assoc, List.filter_append, hold,
        hrecords.recorded]
      simp
    · intro hidle
      exact absurd hholder hidle

theorem Suspension.last (h : Suspension limits w p kept withheld)
    (htail : ∀ a ∈ w.available.tail, a ∈ p.lists .sending) (hne : kept ≠ []) :
    (p.lists .sending).getLast? = kept.getLast? := by
  obtain ⟨before, t, rfl⟩ : ∃ before t, kept = before ++ [t] :=
    ⟨_, _, (List.dropLast_append_getLast hne).symm⟩
  have hmem : t ∈ p.lists .sending := by
    apply htail
    rw [h.tail]
    simp
  obtain ⟨front, hfront⟩ := h.order
  rw [← hfront]
  simp [List.filter_append, hmem]

theorem enqueueTailList_linked {m : Elements} {l available list : Header Nat} {xs ys : List Nat}
    {t y : Nat} (h : m.Sends l (xs ++ ys)) (hxs : xs.getLast? = some t) (hys : ys.head? = some y)
    (hhead : available.head ≠ none) (htail : available.tail = some t)
    (hlist : list.head = some y) :
    SendStateDataSampleList.enqueueTailList m available list =
      some (m, ⟨available.head, list.tail, available.size + list.size⟩) := by
  obtain ⟨xs, rfl⟩ : ∃ before, xs = before ++ [t] := by
    rw [List.getLast?_eq_some_iff] at hxs
    exact hxs
  obtain ⟨ys, rfl⟩ : ∃ rest, ys = y :: rest := by
    rw [List.head?_eq_some_iff] at hys
    exact hys
  have hnext : m.nextSendSample t = some y := by
    have hforward := h.forward
    simp only [path_append] at hforward
    simpa using hforward.1.2
  have hprevious : m.previousSendSample y = some t := by
    have hbackward := h.backward
    simp only [List.reverse_append, List.reverse_cons, List.append_assoc, path_append,
      List.reverse_nil, List.nil_append] at hbackward
    simpa using hbackward.2.1
  have hsame : (m.setNextSend t (some y)).setPreviousSend y (some t) = m := by
    simp only [Elements.setNextSend, Elements.setPreviousSend]
    rw [← hnext, Function.update_eq_self, ← hprevious, Function.update_eq_self]
  obtain ⟨head, hhead⟩ := Option.ne_none_iff_exists'.mp hhead
  simp [SendStateDataSampleList.enqueueTailList, hhead, htail, hlist, hsame]

theorem getUnsentData_list {list : Header Nat} {c' : Container}
    (h : c.getUnsentData = some (list, c')) : list = c.lists .unsent := by
  obtain ⟨_, _, hlist⟩ := Option.bind_eq_some_iff.mp h
  cases hlist
  rfl

theorem Suspension.keep (h : Suspension limits w p kept withheld)
    (hallowed : w.Allowed .sendUnsent) (hcount : w.suspendDepthCount ≠ 0)
    (htail : ∀ a ∈ w.available.tail, a ∈ p.lists .sending) :
    ∃ w', w.step limits .sendUnsent = some w' ∧
      Suspension limits w' (p.pour .sending .unsent) (kept ++ p.lists .unsent) withheld := by
  have hunsent : p.lists .unsent ≠ [] := by
    have hprogress := h.threads.holder
    rwa [show w.holder = .enqueued from hallowed] at hprogress
  obtain ⟨list, c, heq, hsettled, hspares, -⟩ :=
    Container.getUnsentData_settled h.threads.settled hunsent
  have hsending : (p.pour .sending .unsent).lists .sending =
      p.lists .sending ++ p.lists .unsent := by simp [Placement.pour]
  have hlist : Anchors list (p.lists .unsent) := by
    rw [getUnsentData_list heq]
    exact (h.threads.settled.sends .unsent).toAnchors
  obtain ⟨available, happend, hhead, hlast⟩ : ∃ available,
      SendStateDataSampleList.enqueueTailList c.elements w.available list =
        some (c.elements, available) ∧
      available.head = (kept ++ p.lists .unsent).head? ∧
      available.tail = (kept ++ p.lists .unsent).getLast? := by
    obtain ⟨y, hy⟩ := Option.ne_none_iff_exists'.mp (mt List.head?_eq_none_iff.mp hunsent)
    obtain ⟨z, hz⟩ := Option.ne_none_iff_exists'.mp (mt List.getLast?_eq_none_iff.mp hunsent)
    by_cases hempty : kept = []
    · subst hempty
      refine ⟨list, ?_, ?_, ?_⟩
      · simp [SendStateDataSampleList.enqueueTailList, h.head]
      · simpa using hlist.head
      · simpa using hlist.tail
    · obtain ⟨t, ht⟩ := Option.ne_none_iff_exists'.mp (mt List.getLast?_eq_none_iff.mp hempty)
      obtain ⟨x, hx⟩ := Option.ne_none_iff_exists'.mp (mt List.head?_eq_none_iff.mp hempty)
      have hsends := hsettled.sends .sending
      refine ⟨_, enqueueTailList_linked hsends ((h.last htail hempty).trans ht) hy ?_
        (h.tail.trans ht) (hlist.head.trans hy), ?_, ?_⟩
      · rw [h.head, hx]
        simp
      · rw [h.head, List.head?_append, hx]
        rfl
      · rw [hlist.tail, List.getLast?_append, hz]
        rfl
  refine ⟨{ w with container := c, holder := .idle, available }, ?_, ?_⟩
  · simp [step, heq, sendOrKeep, hcount, happend]
  · constructor
    · apply h.threads.frame
      · exact hsettled
      · exact hspares
      · rfl
      · trivial
    · intro a
      rw [Placement.InUse, hsending]
      have huse := h.inUse a
      simp only [Placement.InUse, Placement.pour, List.mem_append] at huse ⊢
      tauto
    · intro a ha hin
      rw [List.append_assoc, List.mem_append, List.mem_append] at hin
      have hnot := h.outside a ha
      rw [List.mem_append] at hnot
      rcases hin with hin | hin | hin
      · exact hnot (.inl hin)
      · rcases (h.inUse a).mpr (.inl ha) with huse | huse
        · exact absurd (h.threads.settled.lists.unique hin huse) (by decide)
        · exact absurd (h.threads.settled.lists.unique hin huse) (by decide)
      · exact hnot (.inr hin)
    · have hperm : (kept ++ p.lists .unsent ++ withheld).Perm
          (kept ++ withheld ++ p.lists .unsent) := by
        rw [List.append_assoc, List.append_assoc]
        exact List.perm_append_comm.append_left kept
      rw [hperm.nodup_iff, List.nodup_append]
      refine ⟨h.distinct, h.threads.settled.lists.nodup _, ?_⟩
      rintro a ha b hb rfl
      exact h.not_unsent ha hb
    · exact hhead
    · exact hlast
    · have hkept : (kept ++ p.lists .unsent).filter (· ∈ p.lists .sending ++ p.lists .unsent) =
          kept.filter (· ∈ p.lists .sending) ++ p.lists .unsent := by
        rw [List.filter_append]
        congr 1
        · apply List.filter_congr
          intro a ha
          simp [h.not_unsent (List.mem_append_left _ ha)]
        · apply List.filter_eq_self.mpr
          intro a ha
          simp [ha]
      rw [hsending, hkept]
      obtain ⟨front, hfront⟩ := h.order
      exact ⟨front, by rw [← List.append_assoc, hfront]⟩
    · exact h.count
    · exact fun hzero => absurd hzero hcount

section

variable (h : Suspension limits w p [] withheld)
include h

theorem Suspension.orderliness (hcount : w.suspendDepthCount = 0) :
    Orderliness limits { w with transport := w.transport ++ withheld } p where
  threads := ⟨h.threads.settled, h.threads.writers, h.threads.distinct, h.threads.queued,
    h.threads.holder⟩
  transport a := by
    rw [h.inUse, List.nil_append, List.mem_append]
  publishing := hcount

theorem Suspension.of_orderliness
    (h' : Orderliness limits { w with container := c, transport := w.transport ++ withheld } p') :
    Suspension limits { w with container := c } p' [] withheld where
  threads := ⟨h'.threads.settled, h'.threads.writers, h'.threads.distinct, h'.threads.queued,
    h'.threads.holder⟩
  inUse a := by
    rw [← h'.transport, List.nil_append, List.mem_append]
  outside := h.outside
  distinct := h.distinct
  head := h.head
  tail := h.tail
  order := by simp
  count := h.count
  resumed _ := rfl

section

variable (hcount : w.suspendDepthCount = 0)
include hcount

theorem Suspension.send {list : Header Nat} {source target : SendState}
    (settled : c.Settled limits (p.pour target source))
    (spares : Container.Spares [] w.container c p (p.pour target source))
    (hwalk : walk c.elements.nextSendSample c.fuel list.head = some (p.lists source))
    (huse : ∀ a, (p.pour target source).InUse a ↔ p.InUse a ∨ a ∈ p.lists source)
    (hsending : source ≠ .sending) (hreleased : source ≠ .released) :
    ∃ w', { w with container := c, holder := .idle }.sendOrKeep list = some w' ∧
      w'.suspendDepthCount = 0 ∧ Suspension limits w' (p.pour target source) [] withheld := by
  refine ⟨_, sendOrKeep_eq (w := { w with container := c, holder := .idle }) hcount hwalk,
    hcount, ?_⟩
  have hnew : ∀ a ∈ p.lists source, ¬ p.InUse a := by
    rintro a ha (hin | hin)
    · exact hsending (h.threads.settled.lists.unique ha hin)
    · exact hreleased (h.threads.settled.lists.unique ha hin)
  constructor
  · apply h.threads.frame
    · exact settled
    · exact spares
    · rfl
    · trivial
  · intro a
    rw [huse, h.inUse]
    simp only [List.mem_append]
    tauto
  · intro a ha hin
    rcases List.mem_append.mp ha with hold | hnew'
    · exact h.outside a hold hin
    · exact hnew a hnew' ((h.inUse a).mpr (.inr hin))
  · exact h.distinct
  · exact h.head
  · exact h.tail
  · simp
  · exact h.count
  · exact fun _ => rfl

theorem Suspension.sendUnsent (hallowed : w.Allowed .sendUnsent) :
    ∃ w', w.step limits .sendUnsent = some w' ∧ w'.suspendDepthCount = 0 ∧
      Suspension limits w' (p.pour .sending .unsent) [] withheld := by
  have hunsent : p.lists .unsent ≠ [] := by
    have hprogress := h.threads.holder
    rwa [show w.holder = .enqueued from hallowed] at hprogress
  obtain ⟨list, c, heq, hsettled, hspares, hwalk⟩ :=
    Container.getUnsentData_settled h.threads.settled hunsent
  obtain ⟨w', hsend, hzero, h'⟩ := h.send hcount hsettled hspares hwalk
    (fun a => by simp [Placement.InUse, Placement.pour]; tauto) (by decide) (by decide)
  refine ⟨w', ?_, hzero, h'⟩
  simp only [step, heq, Option.bind_eq_bind, Option.bind_some]
  exact hsend

theorem Suspension.sendResend (hallowed : w.Allowed .sendResend) :
    ∃ w', w.step limits .sendResend = some w' ∧ w'.suspendDepthCount = 0 ∧
      Suspension limits w' (p.pour .released .resend) [] withheld := by
  obtain ⟨list, c, heq, hsettled, hspares, hwalk⟩ :=
    Container.getResendData_settled h.threads.settled
  obtain ⟨w', hsend, hzero, h'⟩ := h.send hcount hsettled hspares hwalk
    (fun a => by simp [Placement.InUse, Placement.pour]; tauto) (by decide) (by decide)
  refine ⟨w', ?_, hzero, h'⟩
  simp only [step, heq, Option.bind_eq_bind, Option.bind_some]
  rw [← hsend]
  have hidle : w.holder = .idle := hallowed
  rw [hidle]

theorem Suspension.reenqueueAll {copies : Nat → Bool} {addresses : List Nat}
    (hallowed : w.Allowed (.reenqueueAll copies addresses))
    (horderly : Orderly limits w (.reenqueueAll copies addresses)) :
    ∃ w' p', w.step limits (.reenqueueAll copies addresses) = some w' ∧
      w'.suspendDepthCount = 0 ∧ Suspension limits w' p' [] withheld := by
  obtain ⟨w₁, p', heq, h'⟩ := (h.orderliness hcount).reenqueueAll hallowed horderly
  obtain ⟨c, hc, hw₁⟩ := Option.bind_eq_some_iff.mp heq
  cases hw₁
  exact ⟨{ w with container := c }, p', by simp [step, hc], hcount, h.of_orderliness h'⟩

theorem Suspension.unregisterAll (hallowed : w.Allowed .unregisterAll) (hnone : w.waiting = []) :
    ∃ w' p', w.step limits .unregisterAll = some w' ∧
      w'.suspendDepthCount = 0 ∧ Suspension limits w' p' [] withheld := by
  obtain ⟨w₁, p', heq, h'⟩ := (h.orderliness hcount).unregisterAll hallowed hnone
  obtain ⟨c, hc, hw₁⟩ := Option.bind_eq_some_iff.mp heq
  cases hw₁
  exact ⟨{ w with container := c }, p', by simp [step, hc], hcount, h.of_orderliness h'⟩

end

end

/-- The end of the suspension: the transport gets what is left of `available_data_list_`
on `sending_data_`. -/
theorem Suspension.resume (h : Suspension limits w p kept withheld)
    (hcount : w.suspendDepthCount = 1)
    (hhead : ∀ a ∈ w.available.head, a ∈ p.lists .sending) :
    ∃ w', w.step limits .resumePublications = some w' ∧
      w'.transport = w.transport ++ kept.filter (· ∈ p.lists .sending) ∧
      w'.container = w.container ∧ w'.suspendDepthCount = 0 ∧
      Suspension limits w' p [] (kept.filter (· ∉ p.lists .sending) ++ withheld) := by
  have hstart : w.available.head = (kept.filter (· ∈ p.lists .sending)).head? := by
    rw [h.head]
    cases kept with
    | nil => rfl
    | cons a kept =>
      have hmem : a ∈ p.lists .sending := hhead a (by rw [h.head]; rfl)
      simp [hmem]
  have hpath : Path w.container.elements.nextSendSample
      (kept.filter (· ∈ p.lists .sending)) none := by
    have hforward := (h.threads.settled.sends .sending).forward
    obtain ⟨front, hfront⟩ := h.order
    rw [← hfront, path_append] at hforward
    exact hforward.2
  have hwalk := walk_path hpath
    (Nat.le_trans h.order.length_le (h.threads.settled.length_le .sending))
  rw [← hstart] at hwalk
  refine ⟨{ w with
    suspendDepthCount := 0
    transport := w.transport ++ kept.filter (· ∈ p.lists .sending)
    available := .empty }, ?_, rfl, rfl, rfl, ?_⟩
  · simp [step, hcount, DataWriter.send, hwalk]
  · have hsplit : ∀ a, a ∈ kept ↔ a ∈ kept.filter (· ∈ p.lists .sending) ∨
        a ∈ kept.filter (· ∉ p.lists .sending) := by
      simp only [List.mem_filter, decide_eq_true_eq]
      tauto
    have hwithheld : (kept.filter (· ∉ p.lists .sending) ++ withheld).Sublist
        (kept ++ withheld) := List.filter_sublist.append_right _
    constructor
    · exact ⟨h.threads.settled, h.threads.writers, h.threads.distinct, h.threads.queued,
        h.threads.holder⟩
    · intro a
      rw [h.inUse]
      simp only [List.nil_append, List.mem_append, hsplit a]
      tauto
    · intro a ha hin
      rw [List.nil_append] at hin
      rcases List.mem_append.mp ha with hold | hsent
      · exact h.outside a hold (hwithheld.subset hin)
      · rcases List.mem_append.mp hin with hin | hin
        · simp only [List.mem_filter, decide_eq_true_eq] at hsent hin
          exact hin.2 hsent.2
        · exact (List.nodup_append.mp h.distinct).2.2 a (List.mem_filter.mp hsent).1 a hin rfl
    · exact h.distinct.sublist hwithheld
    · rfl
    · rfl
    · simp
    · exact ⟨Int.le_refl 0, Int.natCast_nonneg 32767⟩
    · exact fun _ => rfl

theorem Suspension.recount {count : Int} (h : Suspension limits w p kept withheld)
    (bounds : 0 ≤ count ∧ count ≤ 32767) (resumed : count = 0 → kept = []) :
    Suspension limits { w with suspendDepthCount := count } p kept withheld :=
  { h with
    threads := ⟨h.threads.settled, h.threads.writers, h.threads.distinct, h.threads.queued,
      h.threads.holder⟩
    count := bounds
    resumed := resumed }

/-- Every operation that is allowed and meets the conditions has a result, and keeps the
record of what was written. -/
theorem Suspension.step {op : Operation} (h : Suspension limits w p kept withheld)
    (hr : w.suspendDepthCount ≠ 0 → Records w p kept written) (hallowed : w.Allowed op)
    (hwhile : w.suspendDepthCount ≠ 0 → whileSuspended op = true)
    (horderly : Orderly limits w op) (hattached : Attached w op) :
    ∃ w' p' kept' withheld', w.step limits op = some w' ∧
      Suspension limits w' p' kept' withheld' ∧
      (w'.suspendDepthCount ≠ 0 → Records w' p' kept' (Session.record ⟨w, written⟩ op)) := by
  have hzero : whileSuspended op = false → w.suspendDepthCount = 0 ∧ kept = [] := by
    intro hop
    have hcount : w.suspendDepthCount = 0 := by
      by_contra hne
      exact absurd (hwhile hne) (by simp [hop])
    exact ⟨hcount, h.resumed hcount⟩
  cases op with
  | registerInstance given next =>
    obtain ⟨hsettled, hspares⟩ :=
      Container.registerInstance_settled given next h.threads.settled
    exact ⟨_, p, kept, withheld, rfl, h.frame hsettled hspares Placement.Sheds.refl hallowed,
      fun hne => (hr hne).shed Placement.Sheds.refl hallowed⟩
  | obtainBuffer element handle expired =>
    obtain ⟨w', p', es, heq, hthreads, hsheds, htransport, hsuspended, havailable⟩ :=
      obtainBuffer_threads expired h.threads hallowed
    exact ⟨w', p', kept, withheld, heq,
      h.quiet hthreads hsheds.inUse htransport hsuspended havailable _ hsheds.sending,
      fun hne => (hr (hsuspended ▸ hne)).shed hsheds hallowed.1⟩
  | wake element result expired =>
    obtain ⟨w', p', heq, hthreads, hsheds, htransport, hsuspended, havailable⟩ :=
      wake_threads result expired h.threads hallowed horderly
    exact ⟨w', p', kept, withheld, heq,
      h.quiet hthreads hsheds.inUse htransport hsuspended havailable _ hsheds.sending,
      fun hne => (hr (hsuspended ▸ hne)).shed hsheds hallowed.1⟩
  | enqueue =>
    obtain ⟨w', p', heq, h', hrecords⟩ := h.enqueue hr hallowed
    exact ⟨w', p', kept, withheld, heq, h', hrecords⟩
  | sendUnsent =>
    by_cases hcount : w.suspendDepthCount = 0
    · obtain rfl := h.resumed hcount
      obtain ⟨w', heq, hzero, h'⟩ := h.sendUnsent hcount hallowed
      exact ⟨w', _, _, _, heq, h', fun hne => absurd hzero hne⟩
    · have htail := hattached hcount
      rw [samplesOf_eq h.threads.settled] at htail
      obtain ⟨w', heq, h'⟩ := h.keep hallowed hcount htail
      refine ⟨w', _, _, _, heq, h', ?_⟩
      intro _
      have hempty : (p.pour .sending .unsent).lists .unsent = [] := by simp [Placement.pour]
      constructor
      · rw [hempty, List.append_nil]
        exact (hr hcount).recorded
      · rw [hempty]
        simp
  | reenqueueAll copies addresses =>
    obtain ⟨hcount, rfl⟩ := hzero rfl
    obtain ⟨w', p', heq, hzero, h'⟩ := h.reenqueueAll hcount hallowed horderly
    exact ⟨w', p', _, _, heq, h', fun hne => absurd hzero hne⟩
  | sendResend =>
    obtain ⟨hcount, rfl⟩ := hzero rfl
    obtain ⟨w', heq, hzero, h'⟩ := h.sendResend hcount hallowed
    exact ⟨w', _, _, _, heq, h', fun hne => absurd hzero hne⟩
  | dataDelivered sample =>
    obtain ⟨c, p', heq, hsettled, hspares, hback, -⟩ := Container.dataDelivered_settled
      h.threads.settled ((h.inUse sample).mpr (.inl hallowed))
    exact ⟨_, p', kept, withheld, by simp [DataWriter.step, heq],
      h.givesBack hsettled hspares hback hallowed,
      fun hne => (hr hne).givesBack h hback hallowed rfl⟩
  | dataDropped sample droppedByTransport =>
    obtain ⟨c, p', heq, hsettled, hspares, hback⟩ := Container.dataDropped_settled
      droppedByTransport h.threads.settled ((h.inUse sample).mpr (.inl hallowed))
    exact ⟨_, p', kept, withheld, by simp [DataWriter.step, heq],
      h.givesBack hsettled hspares hback hallowed,
      fun hne => (hr hne).givesBack h hback hallowed rfl⟩
  | dispose handle =>
    obtain ⟨ret, c, p', es, heq, hsettled, hevicts, -⟩ :=
      Container.dispose_settled handle h.threads.settled
    exact ⟨_, p', kept, withheld, by simp [DataWriter.step, heq],
      h.frame hsettled hevicts.spares hevicts.toSheds hallowed,
      fun hne => (hr hne).shed hevicts.toSheds hallowed⟩
  | unregisterAll =>
    obtain ⟨hcount, rfl⟩ := hzero rfl
    obtain ⟨w', p', heq, hzero, h'⟩ := h.unregisterAll hcount hallowed horderly
    exact ⟨w', p', _, _, heq, h', fun hne => absurd hzero hne⟩
  | suspendPublications =>
    have hcount := h.count
    have hless : w.suspendDepthCount < 32767 := hattached
    have hnext : (w.suspendDepthCount + 1).bmod (2 ^ 16) = w.suspendDepthCount + 1 :=
      Int.bmod_eq_of_le (by omega) (by omega)
    refine ⟨{ w with suspendDepthCount := (w.suspendDepthCount + 1).bmod (2 ^ 16) }, p, kept,
      withheld, rfl, ?_, ?_⟩
    · apply h.recount
      · omega
      · omega
    · intro _
      by_cases hcount : w.suspendDepthCount = 0
      · constructor <;> simp [Session.record, hcount]
      · have hrecord : Session.record ⟨w, written⟩ .suspendPublications = written := by
          simp [Session.record, hcount]
        rw [hrecord]
        exact ⟨(hr hcount).recorded, (hr hcount).complete⟩
  | resumePublications =>
    have hcount := h.count
    by_cases hnone : w.suspendDepthCount = 0
    · refine ⟨{ w with suspendDepthCount := 0 }, p, kept, withheld, by simp [DataWriter.step, hnone],
        ?_, ?_⟩
      · exact h.recount ⟨Int.le_refl 0, by decide⟩ fun _ => h.resumed hnone
      · exact fun hne => absurd rfl hne
    · by_cases hone : w.suspendDepthCount = 1
      · have hhead := hattached hone
        rw [samplesOf_eq h.threads.settled] at hhead
        obtain ⟨w', heq, -, -, hzero, h'⟩ := h.resume hone hhead
        exact ⟨w', p, _, _, heq, h', fun hne => absurd hzero hne⟩
      · refine ⟨{ w with suspendDepthCount := w.suspendDepthCount - 1 }, p, kept, withheld, ?_, ?_,
          ?_⟩
        · have hless : (w.suspendDepthCount - 1).bmod (2 ^ 16) = w.suspendDepthCount - 1 :=
            Int.bmod_eq_of_le (by omega) (by omega)
          have hpositive : ¬ w.suspendDepthCount - 1 < 0 := by omega
          have hmore : w.suspendDepthCount - 1 ≠ 0 := by omega
          simp only [DataWriter.step, hless, hpositive, hmore, if_false]
        · apply h.recount
          · omega
          · omega
        · exact fun _ => ⟨(hr hnone).recorded, (hr hnone).complete⟩

theorem create_suspension (limits : ContainerLimits) :
    Suspension limits create ⟨fun _ => [], fun _ => []⟩ [] [] where
  threads := (create_orderliness limits).threads
  inUse a := by simp [create, Placement.InUse]
  outside := by simp
  distinct := by simp
  head := rfl
  tail := rfl
  order := by simp
  count := ⟨Int.le_refl 0, by decide⟩
  resumed _ := rfl

/-- What holds of a writer and the samples written since its publisher was suspended. -/
def Tracked (limits : ContainerLimits) (s : Session) : Prop :=
  ∃ p kept withheld, Suspension limits s.writer p kept withheld ∧
    (s.writer.suspendDepthCount ≠ 0 → Records s.writer p kept s.written)

theorem tracked {ops : List Operation} {s : Session}
    (run : Run Session.create (PerformsAttached limits) ops s) : Tracked limits s := by
  apply run.invariant (Tracked limits)
  · exact ⟨_, _, _, create_suspension limits, fun hne => absurd rfl hne⟩
  · rintro s op after ⟨p, kept, withheld, h, hr⟩ ⟨⟨hperform, hwritten, hwhile⟩, horderly, hattached⟩
    rw [perform, Option.ite_none_right_eq_some] at hperform
    obtain ⟨hallowed, hstep⟩ := hperform
    obtain ⟨w', p', kept', withheld', heq, h', hr'⟩ :=
      h.step hr hallowed hwhile horderly hattached
    rw [hstep, Option.some_inj] at heq
    refine ⟨p', kept', withheld', heq ▸ h', ?_⟩
    rw [hwritten, heq]
    exact hr'

theorem Suspension.held_iff (h : Suspension limits w p kept withheld) {a : Nat} (ha : a ∈ kept) :
    a ∈ held w.container ↔ a ∈ p.lists .sending := by
  rw [mem_held h.threads.settled]
  constructor
  · intro hactive
    rcases (h.inUse a).mpr (.inr (List.mem_append_left _ ha)) with hin | hin
    · exact hin
    · exact absurd hactive (Container.released_not_active h.threads.settled.toHolds hin)
  · exact fun hin => .inr (.inl hin)

/-- In every run whose operations meet the conditions the lists are well-formed, every
further operation that meets them is carried out to its end, and the one that ends a
suspension hands over what was written and not evicted, nothing that was evicted and
nothing the transport has already. -/
theorem suspension_loses_nothing (limits : ContainerLimits) {ops : List Operation} {s : Session}
    (run : Run Session.create (PerformsAttached limits) ops s) :
    WellLinked s.writer.container ∧
      (∀ op, s.writer.Allowed op →
        (s.writer.suspendDepthCount ≠ 0 → whileSuspended op = true) →
        Orderly limits s.writer op → Attached s.writer op →
        ∃ after, s.writer.perform limits op = some after) ∧
      (s.writer.suspendDepthCount = 1 → s.writer.holder = .idle →
        Attached s.writer .resumePublications →
        ∃ sent after, s.writer.perform limits .resumePublications = some after ∧
          HandsOver s sent after ∧ sent.Nodup ∧
          ∀ a ∈ sent, a ∈ held s.writer.container ∧ a ∉ s.writer.transport) := by
  obtain ⟨p, kept, withheld, h, hr⟩ := tracked run
  refine ⟨wellLinked h.threads.settled, ?_, ?_⟩
  · intro op hallowed hwhile horderly hattached
    obtain ⟨after, -, -, -, heq, -⟩ := h.step hr hallowed hwhile horderly hattached
    exact ⟨after, by rw [perform, if_pos hallowed, heq]⟩
  · intro hone hidle hattached
    have hhead := hattached hone
    rw [samplesOf_eq h.threads.settled] at hhead
    obtain ⟨after, heq, htransport, hcontainer, -, -⟩ := h.resume hone hhead
    have hnodup : (kept.filter (· ∈ p.lists .sending)).Nodup :=
      (List.nodup_append.mp h.distinct).1.filter _
    have hwritten : kept.filter (· ∈ s.written) = s.written :=
      (hr (by omega)).idle hidle
    have hkept : ∀ a ∈ s.written, a ∈ kept := by
      intro a ha
      rw [← hwritten] at ha
      exact (List.mem_filter.mp ha).1
    refine ⟨_, after, ?_, ⟨htransport, ?_, ?_, ?_⟩, hnodup, ?_⟩
    · rw [perform, if_pos (show s.writer.Allowed .resumePublications from hidle), heq]
    · intro a ha hheld
      apply List.count_eq_one_of_mem hnodup
      have hin : a ∈ p.lists .sending := (h.held_iff (hkept a ha)).mp hheld
      simp [hkept a ha, hin]
    · have hboth : (kept.filter (· ∈ p.lists .sending)).filter
          (fun a => a ∈ s.written ∧ a ∈ held s.writer.container) =
          (kept.filter (· ∈ s.written)).filter (· ∈ held s.writer.container) := by
        rw [List.filter_filter, List.filter_filter]
        apply List.filter_congr
        intro a ha
        simp [← h.held_iff ha, Bool.and_comm]
      rw [hboth, hwritten]
    · rw [hcontainer]
      exact wellLinked h.threads.settled
    · intro a ha
      obtain ⟨ha, hin⟩ := List.mem_filter.mp ha
      refine ⟨(h.held_iff ha).mpr (by simpa using hin), ?_⟩
      intro htaken
      exact h.outside a htaken (List.mem_append_left _ ha)

instance (w : DataWriter) : (op : Operation) → Decidable (Attached w op)
  | .suspendPublications => inferInstanceAs (Decidable (w.suspendDepthCount < 32767))
  | .sendUnsent => inferInstanceAs (Decidable (w.suspendDepthCount ≠ 0 →
      ∀ a ∈ w.available.tail, a ∈ samplesOf w.container .sending))
  | .resumePublications => inferInstanceAs (Decidable (w.suspendDepthCount = 1 →
      ∀ a ∈ w.available.head, a ∈ samplesOf w.container .sending))
  | .registerInstance _ _ | .obtainBuffer _ _ _ | .wake _ _ _ | .enqueue | .reenqueueAll _ _
  | .sendResend | .dataDelivered _ | .dataDropped _ _ | .dispose _ | .unregisterAll =>
    inferInstanceAs (Decidable True)

/-- The session after the operations, if each meets `meets`. -/
def Session.follow (limits : ContainerLimits) (meets : DataWriter → Operation → Bool)
    (s : Session) : List Operation → Option Session
  | [] => some s
  | op :: ops =>
    if meets s.writer op ∧ (s.writer.suspendDepthCount ≠ 0 → whileSuspended op = true) then
      (s.writer.perform limits op).bind fun w =>
        Session.follow limits meets ⟨w, s.record op⟩ ops
    else none

theorem run_follow {T : Session → Operation → Session → Prop} {ops done : List Operation}
    {meets : DataWriter → Operation → Bool} {s s' : Session}
    (htrans : ∀ op ∈ ops, ∀ s s', Performs limits s op s' → meets s.writer op = true → T s op s')
    (run : Run Session.create T done s) (h : s.follow limits meets ops = some s') :
    Run Session.create T (done ++ ops) s' := by
  induction ops generalizing s done with
  | nil =>
    rw [List.append_nil]
    cases h
    exact run
  | cons op ops ih =>
    rw [Session.follow, Option.ite_none_right_eq_some] at h
    obtain ⟨⟨hmeets, hwhile⟩, hrest⟩ := h
    obtain ⟨w, hop, hrest⟩ := Option.bind_eq_some_iff.mp hrest
    have hfirst := run.next (htrans op List.mem_cons_self _ ⟨w, s.record op⟩ ⟨hop, rfl, hwhile⟩ hmeets)
    have hops := ih (fun op' hop' => htrans op' (List.mem_cons_of_mem _ hop')) hfirst hrest
    simpa using hops

/-- Three instances are written while the publisher is suspended, and the second once
more: its first sample is evicted from the middle of `available_data_list_`. -/
def evictedInside : List Operation :=
  [.registerInstance none 1, .registerInstance none 2, .registerInstance none 3,
    .suspendPublications,
    .obtainBuffer 10 1 false, .enqueue, .sendUnsent,
    .obtainBuffer 11 2 false, .enqueue, .sendUnsent,
    .obtainBuffer 12 3 false, .enqueue, .sendUnsent,
    .obtainBuffer 13 2 false, .enqueue, .sendUnsent]

theorem suspension_loses_nothing_inside :
    ∃ s sent after, Run Session.create (PerformsAttached ⟨1, 0, 0, false⟩) evictedInside s ∧
      s.written = [10, 11, 12, 13] ∧
      s.writer.perform ⟨1, 0, 0, false⟩ .resumePublications = some after ∧
      after.transport = [10, 12, 13] ∧ HandsOver s sent after := by
  have hends : ((Session.create.follow ⟨1, 0, 0, false⟩ (fun w op => decide (Attached w op))
      evictedInside).map fun s => (s.written, s.writer.suspendDepthCount, s.writer.holder,
        decide (Attached s.writer .resumePublications),
        (s.writer.perform ⟨1, 0, 0, false⟩ .resumePublications).map (·.transport))) =
      some ([10, 11, 12, 13], 1, .idle, true, some [10, 12, 13]) := by decide
  obtain ⟨s, hs, hends⟩ := Option.map_eq_some_iff.mp hends
  simp only [Prod.mk.injEq, decide_eq_true_eq, Option.map_eq_some_iff] at hends
  obtain ⟨hwritten, hone, hidle, hattached, after, hafter, htransport⟩ := hends
  have hrun : Run Session.create (PerformsAttached ⟨1, 0, 0, false⟩) evictedInside s := by
    apply run_follow _ .start hs
    intro op hop s s' hperforms hmeets
    refine ⟨hperforms, ?_, of_decide_eq_true hmeets⟩
    simp only [evictedInside, List.mem_cons, List.not_mem_nil, or_false] at hop
    rcases hop with rfl | rfl | rfl | rfl | rfl | rfl | rfl | rfl | rfl | rfl | rfl | rfl | rfl |
      rfl | rfl | rfl <;> trivial
  obtain ⟨-, -, hresume⟩ := suspension_loses_nothing _ hrun
  obtain ⟨sent, after', hafter', hhands, -⟩ := hresume hone hidle hattached
  obtain rfl : after = after' := by
    rw [hafter, Option.some_inj] at hafter'
    exact hafter'
  exact ⟨s, sent, after, hrun, hwritten, hafter, htransport, hhands⟩

/-- One instance is written twice while the publisher is suspended. -/
def evictedLast : List Operation :=
  [.registerInstance none 1, .suspendPublications,
    .obtainBuffer 10 1 false, .enqueue, .sendUnsent,
    .obtainBuffer 11 1 false, .enqueue, .sendUnsent]

/-- The second write evicts the first sample and links it, on `released_data_`, to the
second, on `sending_data_`. -/
theorem eviction_links_lists :
    ¬ ∀ (limits : ContainerLimits) (ops : List Operation) (s : Session),
      Run Session.create (Performs limits) ops s → s.writer.suspendDepthCount = 1 →
      s.writer.holder = .idle →
      ∃ sent after, s.writer.perform limits .resumePublications = some after ∧
        HandsOver s sent after := by
  intro claim
  have hends : ((Session.create.follow ⟨1, 0, 0, false⟩ (fun _ _ => true) evictedLast).map
      fun s => (s.writer.suspendDepthCount, s.writer.holder,
        (s.writer.perform ⟨1, 0, 0, false⟩ .resumePublications).map fun w =>
          (w.container.lists .released, w.container.elements.nextSendSample 10))) =
      some (1, .idle, some (⟨some 10, some 10, 1⟩, some 11)) := by decide
  obtain ⟨s, hs, hends⟩ := Option.map_eq_some_iff.mp hends
  simp only [Prod.mk.injEq, Option.map_eq_some_iff] at hends
  obtain ⟨hone, hidle, w, hw, hreleased, hnext⟩ := hends
  have hrun : Run Session.create (Performs ⟨1, 0, 0, false⟩) evictedLast s :=
    run_follow (fun op _ s s' hperforms _ => hperforms) .start hs
  obtain ⟨sent, after, hafter, hhands⟩ := claim _ _ s hrun hone hidle
  obtain rfl : w = after := by
    rw [hw, Option.some_inj] at hafter
    exact hafter
  obtain ⟨-, released, -, hsends, -⟩ := hhands.linked
  rw [hreleased] at hsends
  have hlast := hsends.single
  rw [hnext] at hlast
  cases hlast

end OpenDDS.Guarantees.SuspendedPublication
