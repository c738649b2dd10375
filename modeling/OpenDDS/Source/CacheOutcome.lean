import OpenDDS.Source.CacheStore

/-!
# What storing a message comes to

`StoreHazard` names, in the state before the call, the four ways in which storing a data
sample at an instance goes wrong. Where none of them is given, the message is rejected and
the cache stays, or its sample is on the list of the instance and the rest of the cache
stays. A notice is always stored.
-/
namespace OpenDDS.Source.ReaderCache
open Library.LinkedList Library.AssociationList Cache
open Function (update update_eq_self update_idem update_of_ne update_self)

variable {δ : Type} {c c' c₁ : Cache δ} {samples : Nat → List Nat} {handle ptr : Nat}
  {inst inst₁ : SubscriptionInstance} {qos : Qos} {msg : Message δ} {xs : List Nat}
  {state : InstanceState} {taken : Bool}

/-- The message is rejected: the oldest sample has not been read. -/
def Rejects (c : Cache δ) (qos : Qos) (msg : Message δ) (xs : List Nat) : Prop :=
  Limited c qos msg xs ∧ ∃ x, xs.head? = some x ∧ (c.element x).sampleState = .notRead

def room (c : Cache δ) (qos : Qos) (msg : Message δ) (xs : List Nat) : List Nat :=
  if Limited c qos msg xs then xs.tail else xs

/-- The instance is released with the sample that makes room. -/
def LosesInstance (c : Cache δ) (qos : Qos) (msg : Message δ) (state : InstanceState)
    (xs : List Nat) : Prop :=
  Limited c qos msg xs ∧ ∃ x, xs = [x] ∧ (c.element x).sampleState = .read ∧
    state.releasePending = true ∧ state.writers = ∅

/-- The new sample comes first in the order of the timestamps and is trimmed at once. -/
def LosesSample (c : Cache δ) (qos : Qos) (msg : Message δ) (xs : List Nat) : Prop :=
  msg.isNotice = false ∧ qos.bySourceTimestamp = true ∧ ∃ y rest, room c qos msg xs = y :: rest ∧
    qos.depth < rest.length + 2 ∧ msg.sourceTimestamp < (c.element y).sourceTimestamp

/-- A sample that has not been read is trimmed for the new one. -/
def LosesUnread (c : Cache δ) (qos : Qos) (msg : Message δ) (xs : List Nat) : Prop :=
  msg.isNotice = false ∧ ∃ y rest, room c qos msg xs = y :: rest ∧ qos.depth < rest.length + 2 ∧
    (c.element y).sampleState = .notRead

/-- What goes wrong when a data sample is stored at an instance with the samples `xs`. -/
inductive StoreHazard (c : Cache δ) (qos : Qos) (msg : Message δ) (state : InstanceState)
    (xs : List Nat) (taken : Bool := false) : Prop
  /-- A limit is reached and there is no sample to look at. -/
  | noSample (limited : Limited c qos msg xs) (none : xs = [])
  | lostInstance (loses : LosesInstance c qos msg state xs)
  | lostSample (stored : ¬ Rejects c qos msg xs) (loses : LosesSample c qos msg xs)
  /-- The new sample is taken while the loss of another one is told of. -/
  | takenSample (stored : ¬ Rejects c qos msg xs) (loses : LosesUnread c qos msg xs)
      (isTaken : taken = true)

theorem storeHazard_iff_taken : StoreHazard c qos msg state xs taken ↔
    StoreHazard c qos msg state xs ∨
      ¬ Rejects c qos msg xs ∧ LosesUnread c qos msg xs ∧ taken = true := by
  constructor
  · intro hazard
    cases hazard with
    | noSample limited none => exact .inl (.noSample limited none)
    | lostInstance loses => exact .inl (.lostInstance loses)
    | lostSample stored loses => exact .inl (.lostSample stored loses)
    | takenSample stored loses isTaken => exact .inr ⟨stored, loses, isTaken⟩
  · rintro (hazard | ⟨stored, loses, isTaken⟩)
    · cases hazard with
      | noSample limited none => exact .noSample limited none
      | lostInstance loses => exact .lostInstance loses
      | lostSample stored loses => exact .lostSample stored loses
      | takenSample _ _ isTaken => cases isTaken
    · exact .takenSample stored loses isTaken

theorem room_subset : ∀ x ∈ room c qos msg xs, x ∈ xs := by
  intro x hx
  unfold room at hx
  split at hx
  · exact List.mem_of_mem_tail hx
  · exact hx

theorem room_of_limited (limited : Limited c qos msg xs) : room c qos msg xs = xs.tail :=
  if_pos limited

theorem Touches.timestamps_eq (h : Touches c c₁ handle ptr) :
    timestamps c₁ msg ptr = timestamps c msg ptr := by
  funext a
  unfold timestamps
  by_cases ha : a = ptr
  · rw [if_pos ha, if_pos ha]
  · rw [if_neg ha, if_neg ha, h.elements a ha]

theorem Touches.queued_eq (h : Touches c c₁ handle ptr) :
    queued c₁ qos msg ptr xs = queued c qos msg ptr xs := by
  unfold queued
  rw [h.timestamps_eq]

theorem queued_length : (queued c qos msg ptr xs).length = xs.length + 1 :=
  (inserted_perm qos (timestamps c msg ptr) ptr xs).length_eq

theorem kept_mem {x : Nat} (h : x ∈ kept qos msg (queued c qos msg ptr xs)) : x = ptr ∨ x ∈ xs := by
  have hmem : x ∈ queued c qos msg ptr xs := by
    unfold kept at h
    split at h
    · exact List.mem_of_mem_tail h
    · exact h
  exact List.mem_cons.mp ((inserted_perm qos (timestamps c msg ptr) ptr xs).mem_iff.mp hmem)

theorem trims_queued : Trims qos msg (queued c qos msg ptr xs) ↔
    msg.isNotice = false ∧ qos.depth < xs.length + 1 := by
  unfold Trims
  rw [queued_length]
  exact Iff.rfl

theorem queued_head {y : Nat} {rest : List Nat} (fresh : ptr ∉ y :: rest) :
    (queued c qos msg ptr (y :: rest)).head? =
      if qos.bySourceTimestamp = true ∧ msg.sourceTimestamp < (c.element y).sourceTimestamp then
        some ptr
      else some y := by
  have hne : y ≠ ptr := fun heq => fresh (heq ▸ List.mem_cons_self)
  unfold queued inserted
  by_cases hsource : qos.bySourceTimestamp = true
  · rw [if_pos hsource]
    unfold SourceDataStrategy.insertSample timestamps
    rw [if_pos rfl, if_neg hne]
    by_cases hearly : msg.sourceTimestamp < (c.element y).sourceTimestamp
    · rw [if_pos hearly, if_pos ⟨hsource, hearly⟩]
      rfl
    · rw [if_neg hearly, if_neg fun h => hearly h.2]
      rfl
  · rw [if_neg hsource, if_neg fun h => hsource h.1]
    rfl

theorem storeAt_eq (ptr : Nat) (taken : Bool) (hroom : c.makeRoom qos handle msg = .ok (false, c₁))
    (found : c₁.getHandleInstance handle = some inst₁) :
    c.storeAt qos handle msg ptr taken =
      if (told qos msg inst₁.instanceState).1 then
        (c₁.setInstance handle
          { inst₁ with instanceState := (told qos msg inst₁.instanceState).2 }).queueSample
            qos handle msg ptr taken
      else .ok (c₁.setInstance handle
        { inst₁ with instanceState := (told qos msg inst₁.instanceState).2 }) := by
  unfold storeAt
  rw [hroom]
  dsimp only [bind, Except.bind]
  rw [if_neg Bool.false_ne_true, recordMessage_eq found]

theorem storeAt_released (hroom : c.makeRoom qos handle msg = .ok (false, c₁))
    (released : c₁.getHandleInstance handle = none) :
    c.storeAt qos handle msg ptr taken = .error .releasedInstance := by
  unfold storeAt
  rw [hroom]
  dsimp only [bind, Except.bind]
  unfold recordMessage
  rw [deref_eq_error released]
  rfl

theorem storeAt_roomed (taken : Bool) (w : Wf c₁ (update samples handle xs))
    (touches : Touches c c₁ handle ptr) (off : ∀ h, ptr ∉ update samples handle xs h)
    (data : msg.isNotice = false) (hroom : c.makeRoom qos handle msg = .ok (false, c₁))
    (found : c₁.getHandleInstance handle = some inst₁) :
    (qos.depth < xs.length + 1 ∧ Frees c ptr taken (queued c qos msg ptr xs) →
      c.storeAt qos handle msg ptr taken = .error .releasedElement) ∧
    (¬ (qos.depth < xs.length + 1 ∧ Frees c ptr taken (queued c qos msg ptr xs)) →
      ∃ c' list empty, c.storeAt qos handle msg ptr taken = .ok c' ∧
        Wf c' (update samples handle (kept qos msg (queued c qos msg ptr xs))) ∧
        Touches c c' handle ptr ∧ c'.getHandleInstance handle =
          some ⟨{ inst₁.instanceState.dataWasReceived msg.pub with empty := empty }, list⟩ ∧
        c'.element ptr = newSample (inst₁.instanceState.dataWasReceived msg.pub) msg) := by
  have hstore := storeAt_eq ptr taken hroom found
  rw [told_data data] at hstore
  rw [if_pos rfl] at hstore
  have htouches : Touches c (c₁.setInstance handle
      { inst₁ with instanceState := inst₁.instanceState.dataWasReceived msg.pub }) handle ptr :=
    touches.trans (touches_setInstance c₁.links _ found)
  obtain ⟨hbad, hgood⟩ := queueSample_spec qos msg taken
    (w.restate found (inst₁.instanceState.dataWasReceived msg.pub))
    (found_setInstance c₁.links _ found) off (fun _ => rfl)
  rw [update_self, htouches.queued_eq, htouches.frees_iff, trims_queued, ← hstore] at hbad hgood
  constructor
  · rintro ⟨hfull, hhead⟩
    exact hbad ⟨⟨data, hfull⟩, hhead⟩
  · intro hsafe
    obtain ⟨c', list, empty, hok, hw', htouches', hfound', helement'⟩ :=
      hgood fun h => hsafe ⟨h.1.2, h.2⟩
    rw [update_idem] at hw'
    exact ⟨c', list, empty, hok, hw', htouches.trans htouches', hfound', helement'⟩

theorem read_of_ne_notRead {kind : SampleStateKind} (h : kind ≠ .notRead) : kind = .read := by
  cases kind with
  | read => rfl
  | notRead => exact absurd rfl h

theorem makeRoom_keeps (ptr : Nat) (w : Wf c samples)
    (found : c.getHandleInstance handle = some inst) (stored : ¬ Rejects c qos msg (samples handle))
    (some : ¬ (Limited c qos msg (samples handle) ∧ samples handle = []))
    (keeps : ¬ LosesInstance c qos msg inst.instanceState (samples handle)) :
    ∃ c₁ list empty, c.makeRoom qos handle msg = .ok (false, c₁) ∧
      Wf c₁ (update samples handle (room c qos msg (samples handle))) ∧
      Touches c c₁ handle ptr ∧
      c₁.getHandleInstance handle = .some ⟨{ inst.instanceState with empty := empty }, list⟩ := by
  unfold room
  by_cases hlimited : Limited c qos msg (samples handle)
  · obtain ⟨x, rest, hxs⟩ := List.exists_cons_of_ne_nil fun hnil => some ⟨hlimited, hnil⟩
    have hread : (c.element x).sampleState ≠ .notRead := by
      intro hnot
      exact stored ⟨hlimited, x, by rw [hxs, List.head?_cons], hnot⟩
    have hkept : ¬ Releases inst.instanceState rest.isEmpty := by
      rintro ⟨hempty, hpending, hwriters⟩
      apply keeps
      refine ⟨hlimited, x, ?_, read_of_ne_notRead hread, hpending, hwriters⟩
      rw [hxs, List.isEmpty_iff.mp hempty]
    obtain ⟨c₁, list, hroom, hw₁, htouches, hfound⟩ :=
      (makeRoom_evicts ptr w found hlimited hxs hread).2 hkept
    rw [if_pos hlimited, hxs, List.tail_cons]
    exact ⟨c₁, list, _, hroom, hw₁, htouches, hfound⟩
  · rw [if_neg hlimited, update_eq_self]
    exact ⟨c, inst.rcvdSamples, inst.instanceState.empty, makeRoom_pass w found hlimited, w,
      Touches.refl c handle ptr, found⟩

theorem storeAt_rejected (w : Wf c samples) (found : c.getHandleInstance handle = some inst)
    (rejects : Rejects c qos msg (samples handle)) : c.storeAt qos handle msg ptr taken = .ok c := by
  obtain ⟨hlimited, x, hhead, hnot⟩ := rejects
  have hroom := makeRoom_limited w found hlimited
  rw [hhead] at hroom
  dsimp only at hroom
  rw [if_pos hnot] at hroom
  unfold storeAt
  rw [hroom]
  rfl

theorem freed_iff (taken : Bool) (deep : 0 < qos.depth) (data : msg.isNotice = false)
    (fresh : ptr ∉ samples handle) :
    (qos.depth < (room c qos msg (samples handle)).length + 1 ∧
        Frees c ptr taken (queued c qos msg ptr (room c qos msg (samples handle)))) ↔
      LosesSample c qos msg (samples handle) ∨
        taken = true ∧ LosesUnread c qos msg (samples handle) := by
  unfold LosesSample LosesUnread Frees
  cases hroom : room c qos msg (samples handle) with
  | nil =>
    constructor
    · rintro ⟨hfull, -⟩
      simp at hfull
      omega
    · rintro (⟨-, -, y, rest, hcons, -⟩ | ⟨-, -, y, rest, hcons, -⟩) <;> cases hcons
  | cons y rest =>
    have hne : y ≠ ptr := fun heq => fresh (room_subset ptr (by rw [hroom, heq]; simp))
    rw [queued_head fun hin => fresh (room_subset ptr (hroom ▸ hin))]
    by_cases hearly : qos.bySourceTimestamp = true ∧
        msg.sourceTimestamp < (c.element y).sourceTimestamp
    · rw [if_pos hearly]
      constructor
      · rintro ⟨hfull, -⟩
        exact .inl ⟨data, hearly.1, y, rest, rfl, by simp at hfull; omega, hearly.2⟩
      · rintro (⟨-, -, _, _, hcons, hfull, -⟩ | ⟨-, -, _, _, hcons, hfull, -⟩)
        all_goals
          cases hcons
          exact ⟨by simp; omega, .inl rfl⟩
    · rw [if_neg hearly]
      constructor
      · rintro ⟨hfull, hhead | ⟨htaken, x, hx, hnot⟩⟩
        · exact absurd (Option.some.inj hhead) hne
        · cases hx
          exact .inr ⟨htaken, data, y, rest, rfl, by simp at hfull; omega, hnot⟩
      · rintro (⟨-, hsource, _, _, hcons, -, hlater⟩ | ⟨htaken, -, _, _, hcons, hfull, hnot⟩)
        · cases hcons
          exact absurd ⟨hsource, hlater⟩ hearly
        · cases hcons
          exact ⟨by simp; omega, .inr ⟨htaken, y, rfl, hnot⟩⟩

structure DataStored (c c' : Cache δ) (samples : Nat → List Nat) (qos : Qos) (msg : Message δ)
    (state : InstanceState) (handle ptr : Nat) : Prop where
  wf : Wf c' (update samples handle
    (kept qos msg (queued c qos msg ptr (room c qos msg (samples handle)))))
  touches : Touches c c' handle ptr
  found : ∃ list empty, c'.getHandleInstance handle =
    some ⟨{ state.dataWasReceived msg.pub with empty := empty }, list⟩
  element : c'.element ptr = newSample (state.dataWasReceived msg.pub) msg

theorem off_update {xs : List Nat} (off : ∀ h, ptr ∉ samples h)
    (sub : ∀ x ∈ xs, x ∈ samples handle) : ∀ h, ptr ∉ update samples handle xs h := by
  intro h hin
  by_cases heq : h = handle
  · rw [heq, update_self] at hin
    exact off handle (sub ptr hin)
  · rw [update_of_ne heq] at hin
    exact off h hin

section

variable (w : Wf c samples) (found : c.getHandleInstance handle = some inst)
  (off : ∀ h, ptr ∉ samples h) (deep : 0 < qos.depth)
include w found off deep

theorem storeAt_stored (taken : Bool) (data : msg.isNotice = false)
    (stored : ¬ Rejects c qos msg (samples handle))
    (some : ¬ (Limited c qos msg (samples handle) ∧ samples handle = []))
    (keeps : ¬ LosesInstance c qos msg inst.instanceState (samples handle)) :
    (LosesSample c qos msg (samples handle) ∨ taken = true ∧ LosesUnread c qos msg (samples handle) →
      c.storeAt qos handle msg ptr taken = .error .releasedElement) ∧
    (¬ (LosesSample c qos msg (samples handle) ∨
        taken = true ∧ LosesUnread c qos msg (samples handle)) →
      ∃ c', c.storeAt qos handle msg ptr taken = .ok c' ∧
        DataStored c c' samples qos msg inst.instanceState handle ptr) := by
  obtain ⟨c₁, list₁, empty₁, hroom, hw₁, htouches₁, hfound₁⟩ :=
    makeRoom_keeps ptr w found stored some keeps
  obtain ⟨hbad, hgood⟩ :=
    storeAt_roomed taken hw₁ htouches₁ (off_update off room_subset) data hroom hfound₁
  rw [freed_iff taken deep data (off handle)] at hbad hgood
  constructor
  · exact hbad
  · intro hsafe
    obtain ⟨c', list, empty, hok, hw', htouches', hfound', helement'⟩ := hgood hsafe
    exact ⟨c', hok, hw', htouches', ⟨list, empty, hfound'⟩, helement'⟩

theorem storeAt_freed {y : Nat} {rest : List Nat} (data : msg.isNotice = false)
    (stored : ¬ Rejects c qos msg (samples handle))
    (hroom : room c qos msg (samples handle) = y :: rest)
    (loses : LosesSample c qos msg (samples handle) ∨
      taken = true ∧ LosesUnread c qos msg (samples handle)) :
    c.storeAt qos handle msg ptr taken = .error .releasedElement := by
  apply (storeAt_stored w found off deep taken data stored ?_ ?_).1 loses
  · rintro ⟨hlimited, hnil⟩
    rw [room_of_limited hlimited, hnil] at hroom
    cases hroom
  · rintro ⟨hlimited, x, hxs, -⟩
    rw [room_of_limited hlimited, hxs] at hroom
    cases hroom

theorem storeAt_hazard (hazard : StoreHazard c qos msg inst.instanceState (samples handle) taken) :
    ∃ fault, c.storeAt qos handle msg ptr taken = .error fault ∧ fault ≠ .unknownInstance := by
  cases hazard with
  | noSample limited none =>
    have hroom := makeRoom_limited w found limited
    rw [none] at hroom
    refine ⟨.emptyHead, ?_, by decide⟩
    unfold storeAt
    rw [hroom]
    rfl
  | lostInstance loses =>
    obtain ⟨hlimited, x, hxs, hread, hpending, hwriters⟩ := loses
    have hne : (c.element x).sampleState ≠ .notRead := by
      rw [hread]
      decide
    obtain ⟨c₁, hroom, hreleased⟩ :=
      (makeRoom_evicts ptr w found hlimited hxs hne).1 ⟨rfl, hpending, hwriters⟩
    exact ⟨.releasedInstance, storeAt_released hroom hreleased, by decide⟩
  | lostSample stored loses =>
    obtain ⟨data, -, y, rest, hroom, -⟩ := id loses
    exact ⟨.releasedElement,
      storeAt_freed w found off deep data stored hroom (.inl loses), by decide⟩
  | takenSample stored loses isTaken =>
    obtain ⟨data, y, rest, hroom, -⟩ := id loses
    exact ⟨.releasedElement,
      storeAt_freed w found off deep data stored hroom (.inr ⟨isTaken, loses⟩), by decide⟩

theorem storeAt_data (data : msg.isNotice = false)
    (safe : ¬ StoreHazard c qos msg inst.instanceState (samples handle) taken) :
    (Rejects c qos msg (samples handle) ∧ c.storeAt qos handle msg ptr taken = .ok c) ∨
    (¬ Rejects c qos msg (samples handle) ∧ ∃ c', c.storeAt qos handle msg ptr taken = .ok c' ∧
      DataStored c c' samples qos msg inst.instanceState handle ptr) := by
  by_cases hrejects : Rejects c qos msg (samples handle)
  · exact .inl ⟨hrejects, storeAt_rejected w found hrejects⟩
  · right
    have hsome : ¬ (Limited c qos msg (samples handle) ∧ samples handle = []) :=
      fun h => safe (.noSample h.1 h.2)
    have hkeeps : ¬ LosesInstance c qos msg inst.instanceState (samples handle) :=
      fun h => safe (.lostInstance h)
    refine ⟨hrejects, (storeAt_stored w found off deep taken data hrejects hsome hkeeps).2 ?_⟩
    rintro (hloses | ⟨htaken, hloses⟩)
    · exact safe (.lostSample hrejects hloses)
    · exact safe (.takenSample hrejects hloses htaken)

end

theorem inserted_split (qos : Qos) (timestamp : Nat → Int) (ptr : Nat) (xs : List Nat) :
    ∃ as bs, inserted qos timestamp ptr xs = as ++ ptr :: bs ∧ (∀ x ∈ as, x ∈ xs) ∧
      (qos.bySourceTimestamp = true → ∀ x ∈ as, timestamp x ≤ timestamp ptr) := by
  unfold inserted
  by_cases hsource : qos.bySourceTimestamp = true
  · rw [if_pos hsource]
    induction xs with
    | nil => exact ⟨[], [], rfl, by simp, by simp⟩
    | cons x xs ih =>
      unfold SourceDataStrategy.insertSample
      by_cases hearly : timestamp ptr < timestamp x
      · rw [if_pos hearly]
        exact ⟨[], x :: xs, rfl, by simp, by simp⟩
      · obtain ⟨as, bs, heq, hsub, hle⟩ := ih
        rw [if_neg hearly, heq]
        refine ⟨x :: as, bs, rfl, ?_, ?_⟩
        · intro a ha
          rcases List.mem_cons.mp ha with rfl | hin
          · exact List.mem_cons_self
          · exact List.mem_cons_of_mem x (hsub a hin)
        · intro _ a ha
          rcases List.mem_cons.mp ha with rfl | hin
          · omega
          · exact hle hsource a hin
  · rw [if_neg hsource]
    exact ⟨xs, [], rfl, fun _ hx => hx, fun h => absurd h hsource⟩

theorem kept_split (deep : 0 < qos.depth) (data : msg.isNotice = false) (fresh : ptr ∉ samples handle)
    (safe : ¬ LosesSample c qos msg (samples handle)) :
    ∃ as bs, kept qos msg (queued c qos msg ptr (room c qos msg (samples handle))) =
        as ++ ptr :: bs ∧ (∀ x ∈ as, x ∈ samples handle) ∧
      (qos.bySourceTimestamp = true → ∀ x ∈ as,
        (c.element x).sourceTimestamp ≤ msg.sourceTimestamp) := by
  obtain ⟨as, bs, heq, hsub, hle⟩ := inserted_split qos (timestamps c msg ptr) ptr
    (room c qos msg (samples handle))
  have hmem : ∀ x ∈ as, x ∈ samples handle := fun x hx => room_subset x (hsub x hx)
  have htime : qos.bySourceTimestamp = true → ∀ x ∈ as,
      (c.element x).sourceTimestamp ≤ msg.sourceTimestamp := by
    intro hsource x hx
    have hne : x ≠ ptr := fun h => fresh (h ▸ hmem x hx)
    have hx' := hle hsource x hx
    unfold timestamps at hx'
    rw [if_neg hne, if_pos rfl] at hx'
    exact hx'
  have hsafe : ¬ (qos.depth < (room c qos msg (samples handle)).length + 1 ∧
      (queued c qos msg ptr (room c qos msg (samples handle))).head? = some ptr) := by
    rintro ⟨hfull, hhead⟩
    have hfreed := (freed_iff (c := c) false deep data fresh).mp ⟨hfull, .inl hhead⟩
    exact safe (hfreed.resolve_right fun h => Bool.false_ne_true h.1)
  unfold queued at hsafe ⊢
  unfold kept
  by_cases htrims : Trims qos msg (inserted qos (timestamps c msg ptr) ptr
      (room c qos msg (samples handle)))
  · rw [if_pos htrims]
    rw [heq] at hsafe ⊢
    cases as with
    | nil => exact absurd ⟨(trims_queued.mp htrims).2, rfl⟩ hsafe
    | cons x as =>
      exact ⟨as, bs, rfl, fun a ha => hmem a (List.mem_cons_of_mem x ha),
        fun hsource a ha => htime hsource a (List.mem_cons_of_mem x ha)⟩
  · rw [if_neg htrims]
    exact ⟨as, bs, heq, hmem, htime⟩

theorem DataStored.again (stored : DataStored c c' samples qos msg state handle ptr)
    (deep : 0 < qos.depth) (data : msg.isNotice = false) (fresh : ptr ∉ samples handle)
    (safe : ¬ LosesSample c qos msg (samples handle)) {state' : InstanceState}
    (calm : state'.releasePending = false) :
    ¬ StoreHazard c' qos msg state'
      (kept qos msg (queued c qos msg ptr (room c qos msg (samples handle)))) := by
  obtain ⟨as, bs, hkept, hsub, htime⟩ := kept_split deep data fresh safe
  have hnot : (c'.element ptr).sampleState = .notRead := by
    rw [stored.element]
    rfl
  have hsame : (c'.element ptr).sourceTimestamp = msg.sourceTimestamp := by
    rw [stored.element]
    rfl
  have helement : ∀ x ∈ as, c'.element x = c.element x := by
    intro x hx
    exact stored.touches.elements x fun heq => fresh (heq ▸ hsub x hx)
  rw [hkept]
  intro hazard
  cases hazard with
  | noSample _ none => simp at none
  | takenSample _ _ isTaken => cases isTaken
  | lostInstance loses =>
    obtain ⟨-, x, -, -, hpending, -⟩ := loses
    rw [calm] at hpending
    cases hpending
  | lostSample accepted loses =>
    obtain ⟨-, hsource, y, rest, hroom, -, hearly⟩ := loses
    -- The head of the list with room is not later than the sample that was stored first.
    have hhead : y ∈ as ∨ y = ptr := by
      unfold room at hroom
      split at hroom
      · rename_i hlimited
        cases as with
        | nil => exact absurd ⟨hlimited, ptr, rfl, hnot⟩ accepted
        | cons x as =>
          cases as with
          | nil =>
            cases hroom
            exact .inr rfl
          | cons x' as =>
            cases hroom
            exact .inl (by simp)
      · cases as with
        | nil =>
          cases hroom
          exact .inr rfl
        | cons x as =>
          cases hroom
          exact .inl (by simp)
    rcases hhead with hin | rfl
    · have hle := htime hsource y hin
      rw [helement y hin] at hearly
      omega
    · omega

theorem storeAt_notice (qos : Qos) (w : Wf c samples)
    (found : c.getHandleInstance handle = some inst) (off : ∀ h, ptr ∉ samples h) (notice : msg.isNotice = true) :
    ∃ c' list empty, c.storeAt qos handle msg ptr = .ok c' ∧
      Wf c' (update samples handle (if (told qos msg inst.instanceState).1 then
        queued c qos msg ptr (samples handle) else samples handle)) ∧
      Touches c c' handle ptr ∧ c'.getHandleInstance handle =
        some ⟨{ (told qos msg inst.instanceState).2 with empty := empty }, list⟩ ∧
      ((told qos msg inst.instanceState).1 = true →
        c'.element ptr = newSample (told qos msg inst.instanceState).2 msg) := by
  have hdata : msg.isNotice ≠ false := by
    rw [notice]
    decide
  have hpass : c.makeRoom qos handle msg = .ok (false, c) :=
    makeRoom_pass w found (fun h => hdata h.2)
  have hstore := storeAt_eq ptr false hpass found
  have htouches : Touches c (c.setInstance handle
      { inst with instanceState := (told qos msg inst.instanceState).2 }) handle ptr :=
    touches_setInstance c.links _ found
  have hw := w.restate found (told qos msg inst.instanceState).2
  have hfound := found_setInstance c.links
    { inst with instanceState := (told qos msg inst.instanceState).2 } found
  rw [hstore]
  by_cases htold : (told qos msg inst.instanceState).1 = true
  · rw [if_pos htold, if_pos htold]
    obtain ⟨c', list, empty, hok, hw', htouches', hfound', helement'⟩ :=
      (queueSample_spec qos msg false hw hfound off (fun h => absurd h hdata)).2 fun h => hdata h.1.1
    have hkept : kept qos msg (queued c qos msg ptr (samples handle)) =
        queued c qos msg ptr (samples handle) := if_neg fun h => hdata h.1
    rw [htouches.queued_eq, hkept] at hw'
    exact ⟨c', list, empty, hok, hw', htouches.trans htouches', hfound', fun _ => helement'⟩
  · rw [if_neg htold, if_neg htold, update_eq_self]
    exact ⟨_, _, _, rfl, hw, htouches, hfound, fun h => absurd h htold⟩

end OpenDDS.Source.ReaderCache

/-!
# Coherent sets in a cache in order

The samples of a coherent set are made available, or they are removed from every instance.
The loop over the instances fails at an instance that is released with its last sample.
-/
namespace OpenDDS.Source.ReaderCache
open Library.LinkedList Library.AssociationList Cache
open Function (update update_of_ne update_self)

variable {δ : Type} {c c' : Cache δ} {samples samples' : Nat → List Nat} {handle : Nat}
  {inst : SubscriptionInstance} {writer publisher : Nat} {handles : List Nat}

/-- The instance is released when the samples of the coherent set are removed. -/
def Doomed (c : Cache δ) (samples : Nat → List Nat) (writer publisher handle : Nat) : Prop :=
  ∃ inst, c.getHandleInstance handle = some inst ∧ inst.instanceState.releasePending = true ∧
    inst.instanceState.writers = ∅ ∧ samples handle ≠ [] ∧
    ∀ a ∈ samples handle, c.coherentFilter writer publisher a = true

theorem doomed_congr (find : c'.getHandleInstance handle = c.getHandleInstance handle)
    (list : samples' handle = samples handle)
    (elements : ∀ a ∈ samples handle, c'.element a = c.element a) :
    Doomed c' samples' writer publisher handle ↔ Doomed c samples writer publisher handle := by
  have hfilter : (∀ a ∈ samples handle, c'.coherentFilter writer publisher a = true) ↔
      ∀ a ∈ samples handle, c.coherentFilter writer publisher a = true := by
    apply forall₂_congr
    intro a ha
    unfold coherentFilter
    rw [elements a ha]
  unfold Doomed
  rw [find, list, hfilter]

section

variable (writer publisher : Nat) (w : Wf c samples)
include w

theorem rejectCoherent_cons (found : c.getHandleInstance handle = some inst) (handles : List Nat) :
    (Doomed c samples writer publisher handle →
      c.rejectCoherent writer publisher (handle :: handles) = .error .releasedInstance) ∧
    (¬ Doomed c samples writer publisher handle → ∃ c', c.rejectCoherent writer publisher
        (handle :: handles) = c'.rejectCoherent writer publisher handles ∧
      Wf c' (update samples handle
        ((samples handle).filter fun a => !c.coherentFilter writer publisher a)) ∧
      (∀ h, h ≠ handle → c'.getHandleInstance h = c.getHandleInstance h) ∧
      (c'.getHandleInstance handle).isSome ∧ c'.element = c.element) := by
  obtain ⟨links, list, hremove, hlists, hrelinked⟩ := ReceivedDataElementList.removeMatching_all
    (c.coherentFilter writer publisher) (w.lists handle inst found) (w.apart.nodup handle)
  have hreject : c.rejectCoherent writer publisher (handle :: handles) =
      Except.bind (if (c.removed handle inst (decide (samples handle ≠ [] ∧
          (samples handle).filter (fun a => !c.coherentFilter writer publisher a) = []),
            links, list)).1 then .error .releasedInstance
        else .ok (c.removed handle inst (decide (samples handle ≠ [] ∧
          (samples handle).filter (fun a => !c.coherentFilter writer publisher a) = []),
            links, list)).2) fun c' => c'.rejectCoherent writer publisher handles := by
    unfold rejectCoherent
    rw [List.foldlM_cons, deref_eq_ok found]
    dsimp only [bind, Except.bind]
    rw [hremove]
  have hreleases : Releases inst.instanceState (decide (samples handle ≠ [] ∧
      (samples handle).filter (fun a => !c.coherentFilter writer publisher a) = [])) ↔
      Doomed c samples writer publisher handle := by
    unfold Releases Doomed
    rw [found, decide_eq_true_iff, List.filter_eq_nil_iff]
    simp only [Bool.not_eq_true, Bool.not_eq_false', Option.some.injEq, exists_eq_left']
    tauto
  constructor
  · intro hdoomed
    rw [hreject, removed_released (hreleases.mpr hdoomed), if_pos rfl]
    rfl
  · intro hkept
    rw [removed_kept (mt hreleases.mp hkept), if_neg Bool.false_ne_true] at hreject
    refine ⟨_, hreject, ?_, ?_, ?_, rfl⟩
    · exact w.shorten found hlists hrelinked List.filter_sublist _
    · intro h hne
      rw [getHandleInstance_setInstance (c := { c with links := links }) found, if_neg hne]
      rfl
    · rw [found_setInstance links _ found]
      rfl

theorem rejectCoherent_spec (found : ∀ h ∈ handles, (c.getHandleInstance h).isSome) :
    ((∃ h ∈ handles, Doomed c samples writer publisher h) →
      c.rejectCoherent writer publisher handles = .error .releasedInstance) ∧
    ((∀ h ∈ handles, ¬ Doomed c samples writer publisher h) → ∃ c',
      c.rejectCoherent writer publisher handles = .ok c' ∧
      ∀ h, (c'.getHandleInstance h).isSome = (c.getHandleInstance h).isSome) := by
  induction handles generalizing c samples with
  | nil =>
    constructor
    · rintro ⟨h, hin, -⟩
      cases hin
    · intro _
      exact ⟨c, rfl, fun _ => rfl⟩
  | cons handle handles ih =>
    obtain ⟨inst, hfound⟩ := Option.isSome_iff_exists.mp (found handle List.mem_cons_self)
    obtain ⟨hbad, hgood⟩ := rejectCoherent_cons writer publisher w hfound handles
    by_cases hdoomed : Doomed c samples writer publisher handle
    · constructor
      · intro _
        exact hbad hdoomed
      · intro hnone
        exact absurd hdoomed (hnone handle List.mem_cons_self)
    · obtain ⟨c₁, heq, hw₁, hothers, hsome, helement⟩ := hgood hdoomed
      have hsame : ∀ h, (c₁.getHandleInstance h).isSome = (c.getHandleInstance h).isSome := by
        intro h
        by_cases hh : h = handle
        · rw [hh, hsome, hfound]
          rfl
        · rw [hothers h hh]
      -- An instance that has been dealt with is not doomed afterwards.
      have hiff : ∀ h, Doomed c₁ (update samples handle
          ((samples handle).filter fun a => !c.coherentFilter writer publisher a))
            writer publisher h ↔ Doomed c samples writer publisher h := by
        intro h
        by_cases hh : h = handle
        · rw [hh]
          constructor
          · rintro ⟨-, -, -, -, hne, hall⟩
            rw [update_self] at hne hall
            obtain ⟨a, rest, hcons⟩ := List.exists_cons_of_ne_nil hne
            have ha : a ∈ (samples handle).filter
                fun a => !c.coherentFilter writer publisher a := by
              rw [hcons]
              exact List.mem_cons_self
            have hnot := (List.mem_filter.mp ha).2
            have hmatch := hall a ha
            unfold coherentFilter at hmatch hnot
            rw [helement] at hmatch
            rw [hmatch] at hnot
            cases hnot
          · intro h'
            exact absurd h' hdoomed
        · apply doomed_congr (hothers h hh) (update_of_ne hh ..)
          intro a _
          rw [helement]
      obtain ⟨hbad', hgood'⟩ := ih hw₁ fun h hin =>
        (hsame h).trans (found h (List.mem_cons_of_mem handle hin))
      rw [heq]
      constructor
      · rintro ⟨h, hin, hd⟩
        apply hbad'
        rcases List.mem_cons.mp hin with rfl | hin
        · exact absurd hd hdoomed
        · exact ⟨h, hin, (hiff h).mpr hd⟩
      · intro hnone
        obtain ⟨c', hok, hsame'⟩ := hgood' fun h hin hd =>
          hnone h (List.mem_cons_of_mem handle hin) ((hiff h).mp hd)
        exact ⟨c', hok, fun h => (hsame' h).trans (hsame h)⟩

theorem acceptCoherent_spec (found : ∀ h ∈ handles, (c.getHandleInstance h).isSome) :
    ∃ c', c.acceptCoherent writer publisher handles = .ok c' ∧
      ∀ h, c'.getHandleInstance h = c.getHandleInstance h := by
  induction handles generalizing c with
  | nil => exact ⟨c, rfl, fun _ => rfl⟩
  | cons handle handles ih =>
    obtain ⟨inst, hfound⟩ := Option.isSome_iff_exists.mp (found handle List.mem_cons_self)
    have hwalk := (w.lists handle inst hfound).walk
    have hw₁ : Wf { c with
        element := fun item =>
          if item ∈ samples handle ∧ c.coherentFilter writer publisher item then
            { c.element item with coherentChange := false }
          else c.element item } samples :=
      ⟨w.mapped, w.distinct, w.lists, w.vacant, w.apart, w.live⟩
    obtain ⟨c', hok, hsame⟩ := ih hw₁ fun h hin => found h (List.mem_cons_of_mem handle hin)
    refine ⟨c', ?_, hsame⟩
    rw [← hok]
    unfold acceptCoherent
    rw [List.foldlM_cons, deref_eq_ok hfound]
    dsimp only [bind, Except.bind]
    rw [hwalk]

end

theorem found_of_mem {h : Nat} (hin : h ∈ c.instances.map Prod.fst) :
    (c.getHandleInstance h).isSome := by
  obtain ⟨entry, hentry, rfl⟩ := List.mem_map.mp hin
  exact lookup_isSome hentry

theorem mem_of_found (found : c.getHandleInstance handle = some inst) :
    handle ∈ c.instances.map Prod.fst :=
  List.mem_map_of_mem (f := Prod.fst) (mem_of_lookup found)

theorem verifyCoherent_spec (w : Wf c samples) (msg : Message δ) :
    (msg.verdict = .rejected ∧ (∃ h, Doomed c samples msg.pub msg.publisherId h) →
      c.verifyCoherent msg = .error .releasedInstance) ∧
    (¬ (msg.verdict = .rejected ∧ ∃ h, Doomed c samples msg.pub msg.publisherId h) → ∃ c',
      c.verifyCoherent msg = .ok c' ∧
      ∀ h, (c'.getHandleInstance h).isSome = (c.getHandleInstance h).isSome) := by
  have hfound : ∀ h ∈ c.instances.map Prod.fst, (c.getHandleInstance h).isSome :=
    fun h hin => found_of_mem hin
  unfold verifyCoherent
  cases msg.verdict with
  | pending =>
    constructor
    · rintro ⟨hverdict, -⟩
      cases hverdict
    · intro _
      exact ⟨c, rfl, fun _ => rfl⟩
  | accepted =>
    obtain ⟨c', hok, hsame⟩ := acceptCoherent_spec msg.pub msg.publisherId w hfound
    constructor
    · rintro ⟨hverdict, -⟩
      cases hverdict
    · intro _
      exact ⟨c', hok, fun h => congrArg Option.isSome (hsame h)⟩
  | rejected =>
    obtain ⟨hbad, hgood⟩ := rejectCoherent_spec msg.pub msg.publisherId w hfound
    constructor
    · rintro ⟨-, h, hdoomed⟩
      obtain ⟨inst, hinst, -⟩ := id hdoomed
      exact hbad ⟨h, mem_of_found hinst, hdoomed⟩
    · intro hnone
      exact hgood fun h _ hdoomed => hnone ⟨rfl, h, hdoomed⟩

end OpenDDS.Source.ReaderCache
