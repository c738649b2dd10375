import OpenDDS.Source.ContainerResend
import OpenDDS.Source.DataWriter

/-!
# The threads of a data writer

The elements of the writers that wait in `obtain_buffer`, and that of the thread which
holds the lock, are on no list of samples; those that wait for space are on the waiting
list of their instance. Each operation of the writer keeps this along with its container.
-/
namespace OpenDDS.Source

namespace DataWriter

/-- What the thread that holds the lock has done so far. -/
def Progress (limits : ContainerLimits) (c : Container) (p : Placement)
    (waiting : List Writer) : Holder → Prop
  | .idle => True
  | .obtained element handle => c.Pending p element handle ∧
      (∀ t ∈ waiting, t.element ≠ element) ∧
      (p.queues (handle, .samples)).length < limits.depth
  | .enqueued => p.lists .unsent ≠ []

structure Threads (limits : ContainerLimits) (w : DataWriter) (p : Placement) : Prop where
  settled : w.container.Settled limits p
  writers : ∀ t ∈ w.waiting, w.container.Pending p t.element t.handle
  distinct : (w.waiting.map Writer.element).Nodup
  queued : ∀ n x, x ∈ p.queues (n, .waitingList) ↔
    ∃ t ∈ w.waiting, t.element = x ∧ t.handle = n ∧ t.wait = .space
  holder : Progress limits w.container p w.waiting w.holder

variable {limits : ContainerLimits} {w w' : DataWriter} {c : Container} {p p' : Placement}

theorem Threads.frame (h : w.Threads limits p) (settled : w'.container.Settled limits p')
    (spares : Container.Spares [] w.container w'.container p p')
    (waiting : w'.waiting = w.waiting)
    (holder : Progress limits w'.container p' w'.waiting w'.holder) : w'.Threads limits p' where
  settled := settled
  writers t ht := by
    rw [waiting] at ht
    exact spares.pending _ _ (by simp) (h.writers t ht)
  distinct := by
    rw [waiting]
    exact h.distinct
  queued n x := by
    rw [spares.waiting, waiting]
    exact h.queued n x
  holder := holder

/-- The same for a holder that stays where it is, when the lists of samples do not grow. -/
theorem Progress.frame {holder : Holder} {waiting : List Writer} {c' : Container}
    (h : Progress limits c p waiting holder) (spares : Container.Spares [] c c' p p')
    (samples : ∀ n, (p'.queues (n, .samples)).length ≤ (p.queues (n, .samples)).length)
    (unsent : p.lists .unsent ≠ [] → p'.lists .unsent ≠ []) :
    Progress limits c' p' waiting holder := by
  cases holder with
  | idle => trivial
  | obtained element handle =>
    obtain ⟨hpending, hother, hroom⟩ := h
    exact ⟨spares.pending _ _ (by simp) hpending, hother, Nat.lt_of_le_of_lt (samples handle) hroom⟩
  | enqueued => exact unsent h

theorem Threads.settle {a handle : Nat} {outcome : Container.Obtained} {es : List Nat}
    (h : w.Threads limits p)
    (hobtains : Container.Obtains limits a handle outcome es w.container c p p')
    (hroom : outcome = .buffer → (p'.queues (handle, .samples)).length < limits.depth)
    (hwaiting : w'.waiting = w.waiting.filter fun t => t.element ≠ a) (hholder : w'.holder = .idle) :
    (w'.settle a handle (outcome, c)).Threads limits p' := by
  have hmem : ∀ {t}, t ∈ w'.waiting ↔ t ∈ w.waiting ∧ t.element ≠ a := by
    intro t
    rw [hwaiting, List.mem_filter, decide_eq_true_eq]
  have hwriters : ∀ t ∈ w'.waiting, c.Pending p' t.element t.handle := by
    intro t ht
    obtain ⟨ht, hne⟩ := hmem.mp ht
    exact hobtains.spares _ _ hne (h.writers t ht)
  have hdistinct : (w'.waiting.map Writer.element).Nodup := by
    rw [hwaiting]
    exact h.distinct.sublist (List.filter_sublist.map _)
  have hold : ∀ n x, (x ≠ a ∧ x ∈ p.queues (n, .waitingList)) ↔
      ∃ t ∈ w'.waiting, t.element = x ∧ t.handle = n ∧ t.wait = .space := by
    intro n x
    rw [h.queued]
    constructor
    · rintro ⟨hxa, t, ht, rfl, hrest⟩
      exact ⟨t, hmem.mpr ⟨ht, hxa⟩, rfl, hrest⟩
    · rintro ⟨t, ht, rfl, hrest⟩
      exact ⟨(hmem.mp ht).2, t, (hmem.mp ht).1, rfl, hrest⟩
  -- Unless the writer waits for space, its element is on no waiting list.
  have hqueued : outcome ≠ .waits .space → ∀ n x, x ∈ p'.queues (n, .waitingList) ↔
      ∃ t ∈ w'.waiting, t.element = x ∧ t.handle = n ∧ t.wait = .space := by
    intro hne n x
    rw [hobtains.waiting, ← hold]
    simp [hne]
  cases outcome with
  | buffer =>
    refine ⟨hobtains.settled, hwriters, hdistinct, hqueued (by simp), ?_⟩
    exact ⟨hobtains.pending (by simp), fun t ht => (hmem.mp ht).2, hroom rfl⟩
  | failed ret =>
    refine ⟨hobtains.settled, hwriters, hdistinct, hqueued (by simp), ?_⟩
    show Progress limits c p' w'.waiting w'.holder
    rw [hholder]
    trivial
  | waits wait =>
    refine ⟨hobtains.settled, ?_, ?_, ?_, ?_⟩
    · intro t ht
      rcases List.mem_cons.mp ht with rfl | ht
      · exact hobtains.pending (by simp)
      · exact hwriters t ht
    · apply List.nodup_cons.mpr
      refine ⟨?_, hdistinct⟩
      intro hin
      obtain ⟨t, ht, hta⟩ := List.mem_map.mp hin
      exact (hmem.mp ht).2 hta
    · intro n x
      rw [hobtains.waiting, hold]
      constructor
      · rintro (⟨t, ht, hrest⟩ | ⟨rfl, rfl, hspace⟩)
        · exact ⟨t, List.mem_cons_of_mem _ ht, hrest⟩
        · exact ⟨_, List.mem_cons_self, rfl, rfl, by simpa using hspace⟩
      · rintro ⟨t, ht, hrest⟩
        rcases List.mem_cons.mp ht with rfl | ht
        · obtain ⟨rfl, rfl, hspace⟩ := hrest
          have hspace' : wait = .space := hspace
          exact .inr ⟨rfl, rfl, by rw [hspace']⟩
        · exact .inl ⟨t, ht, hrest⟩
    · show Progress limits c p' _ w'.holder
      rw [hholder]
      trivial

theorem mem_handles {handle : Nat} (hsome : (c.getHandleInstance handle).isSome) :
    handle ∈ c.handles := by
  obtain ⟨i, hi⟩ := Option.isSome_iff_exists.mp hsome
  obtain ⟨hmem, rfl⟩ := Container.getHandleInstance_some hi
  exact List.mem_map_of_mem hmem

theorem settle_frame (w : DataWriter) (a handle : Nat) (r : Container.Obtained × Container) :
    (w.settle a handle r).transport = w.transport ∧
      (w.settle a handle r).suspendDepthCount = w.suspendDepthCount ∧
      (w.settle a handle r).available = w.available ∧
      (w.settle a handle r).container = r.2 := by
  obtain ⟨outcome, c⟩ := r
  cases outcome <;> exact ⟨rfl, rfl, rfl, rfl⟩

theorem obtainBuffer_threads {a handle : Nat} (expired : Bool) (h : w.Threads limits p)
    (hallowed : w.Allowed (.obtainBuffer a handle expired)) :
    ∃ w' p' es, w.step limits (.obtainBuffer a handle expired) = some w' ∧ w'.Threads limits p' ∧
      p.Sheds es p' ∧ w'.transport = w.transport ∧
      w'.suspendDepthCount = w.suspendDepthCount ∧ w'.available = w.available := by
  obtain ⟨hidle, hfresh, hsome⟩ := hallowed
  obtain ⟨outcome, es, c, p', heq, hobtains, hroom⟩ := Container.obtainBuffer_settled expired
    h.settled hfresh (mem_handles hsome)
  have hsame : w.waiting = w.waiting.filter fun t => t.element ≠ a := by
    symm
    apply List.filter_eq_self.mpr
    intro t ht
    have hne : t.element ≠ a := fun heq => hfresh (heq ▸ (h.writers t ht).known)
    simpa using hne
  obtain ⟨h₁, h₂, h₃, -⟩ := settle_frame w a handle (outcome, c)
  exact ⟨_, p', es, by simp [step, heq], h.settle hobtains hroom hsame hidle, hobtains.sheds,
    h₁, h₂, h₃⟩

/-- The wait of a writer ends as it should: it is not woken from its wait for space at
shutdown or after its deadline, and its instance has room when it goes on from a wait for
the resource limits. -/
def EndsWait (limits : ContainerLimits) (c : Container) (t : Writer)
    (result : Container.WaitResult) (expired : Bool) : Prop :=
  result = .signaled →
    match t.wait with
    | .space => c.shutdown = false ∧ expired = false
    | .resource ret oldestReleased =>
      ret = .ok → (c.numAllSamples < limits.maxNumSamples ∨ c.shutdown ∨ expired) →
      ∀ i ∈ c.getHandleInstance t.handle,
        ¬ (limits.shouldBlock ∧ (i.waitingList.head ≠ none ∨ ¬ oldestReleased)) →
        i.samples.size < limits.depth

theorem findWriter_some {a : Nat} {t : Writer} (h : w.findWriter a = some t) :
    t ∈ w.waiting ∧ t.element = a :=
  ⟨List.mem_of_find?_eq_some h, by simpa using List.find?_some h⟩

theorem wake_threads {a : Nat} (result : Container.WaitResult) (expired : Bool)
    (h : w.Threads limits p) (hallowed : w.Allowed (.wake a result expired))
    (hends : ∀ t ∈ w.findWriter a, EndsWait limits w.container t result expired) :
    ∃ w' p', w.step limits (.wake a result expired) = some w' ∧ w'.Threads limits p' ∧
      p.Sheds [] p' ∧ w'.transport = w.transport ∧
      w'.suspendDepthCount = w.suspendDepthCount ∧ w'.available = w.available := by
  obtain ⟨hidle, hsome⟩ := hallowed
  obtain ⟨t, hfind⟩ := Option.isSome_iff_exists.mp hsome
  obtain ⟨ht, rfl⟩ := findWriter_some hfind
  have hends := hends t hfind
  have hpending := h.writers t ht
  obtain ⟨outcome, c, p', heq, hobtains, hroom⟩ : ∃ outcome c p',
      w.container.resume limits t.element t.handle t.wait result expired = some (outcome, c) ∧
      Container.Obtains limits t.element t.handle outcome [] w.container c p p' ∧
      (outcome = .buffer → (p'.queues (t.handle, .samples)).length < limits.depth) := by
    cases hwait : t.wait with
    | space =>
      have hmem : t.element ∈ p.queues (t.handle, .waitingList) :=
        (h.queued _ _).mpr ⟨t, ht, rfl, rfl, hwait⟩
      obtain ⟨outcome, c, p', heq, hobtains, hne⟩ := Container.resume_space_settled result expired
        h.settled hpending hmem (by simpa [EndsWait, hwait] using hends)
      exact ⟨outcome, c, p', heq, hobtains, fun houtcome => absurd houtcome hne⟩
    | resource ret oldestReleased =>
      have hfree : ∀ n, t.element ∉ p.queues (n, .waitingList) := by
        intro n hin
        obtain ⟨t', ht', heq, -, hspace⟩ := (h.queued n _).mp hin
        have hsame : t' = t := List.inj_on_of_nodup_map h.distinct ht' ht heq
        rw [hsame, hwait] at hspace
        cases hspace
      obtain ⟨outcome, c, p', heq, hobtains, hbuffer⟩ := Container.resume_resource_settled ret
        oldestReleased result expired h.settled hpending hfree
      refine ⟨outcome, c, p', heq, hobtains, ?_⟩
      intro houtcome
      obtain ⟨hsignaled, hret, hleaves, hnowait⟩ := hbuffer houtcome
      obtain ⟨i, hi, hit⟩ := Container.exists_instance hpending.registered
      have hget : w.container.getHandleInstance t.handle = some i :=
        hit ▸ h.settled.getHandleInstance hi
      have hsize : i.samples.size < limits.depth := by
        have hends' := hends hsignaled
        rw [hwait] at hends'
        exact hends' hret hleaves i hget (hnowait i hget)
      have hlength : i.samples.size = (p.queues (t.handle, .samples)).length := by
        rw [← hit]
        exact (h.settled.keeps i hi .samples).size
      rw [hobtains.sheds.samples]
      have hle := List.length_filter_le (fun x => decide (x ∉ ([] : List Nat)))
        (p.queues (t.handle, .samples))
      omega
  have hothers : (DataWriter.settle
      { w with waiting := w.waiting.filter fun t' => t'.element ≠ t.element }
      t.element t.handle (outcome, c)).Threads limits p' := h.settle hobtains hroom rfl hidle
  obtain ⟨h₁, h₂, h₃, -⟩ := settle_frame
    { w with waiting := w.waiting.filter fun t' => t'.element ≠ t.element } t.element t.handle
    (outcome, c)
  refine ⟨_, p', ?_, hothers, hobtains.sheds, h₁, h₂, h₃⟩
  simp only [step, hfind, heq, Option.bind_eq_bind, Option.bind_some]

theorem enqueue_threads (h : w.Threads limits p) (hallowed : w.Allowed .enqueue) :
    ∃ w' p' a handle, w.step limits .enqueue = some w' ∧ w'.Threads limits p' ∧
      w.holder = .obtained a handle ∧ p.Loose a ∧
      p'.lists = Function.update p.lists .unsent (p.lists .unsent ++ [a]) ∧
      w'.holder = .enqueued ∧ w'.transport = w.transport ∧
      w'.suspendDepthCount = w.suspendDepthCount ∧ w'.available = w.available := by
  have hholder := h.holder
  cases hw : w.holder with
  | idle => exact absurd hw hallowed.1
  | enqueued => exact absurd hw hallowed.2
  | obtained a handle =>
    rw [hw] at hholder
    obtain ⟨hpending, hother, hroom⟩ := hholder
    have hfree : ∀ n, a ∉ p.queues (n, .waitingList) := by
      intro n hin
      obtain ⟨t, ht, hta, -⟩ := (h.queued n a).mp hin
      exact hother t ht hta
    obtain ⟨c, p', heq, h', hlists, hspares⟩ :=
      Container.enqueue_settled h.settled hpending hfree hroom
    refine ⟨{ w with container := c, holder := .enqueued }, p', a, handle, ?_, ?_, rfl,
      hpending.loose, hlists, rfl, rfl, rfl, rfl⟩
    · simp [step, hw, heq]
    · constructor
      · exact h'
      · intro t ht
        exact hspares.pending _ _ (by simpa using hother t ht) (h.writers t ht)
      · exact h.distinct
      · intro n x
        rw [hspares.waiting]
        exact h.queued n x
      · show p'.lists .unsent ≠ []
        rw [hlists]
        simp

theorem givesBack_threads {a : Nat} {transport : List Nat} (h : w.Threads limits p)
    (settled : c.Settled limits p') (spares : Container.Spares [] w.container c p p')
    (hback : Container.GivesBack a p p') :
    Threads limits { w with container := c, transport } p' := by
  apply h.frame
  · exact settled
  · exact spares
  · rfl
  · apply h.holder.frame spares hback.samples
    intro hne
    rcases hback.unsent with hunsent | hunsent
    · rwa [hunsent]
    · rw [hunsent]
      simp

end DataWriter
end OpenDDS.Source
