import OpenDDS.Library.Run
import OpenDDS.Source.CacheReception

/-!
# History depth

One instance of a reader that orders by reception, with limits that are not reached. The
trim counts every element of the list, and the elements of notices without data are among
them: a data sample costs the head of a list that is as long as the depth, whatever that
head is. The data samples are the latest ones as long as the head that goes is a data sample
exactly where there are `depth` of them.
-/
namespace OpenDDS.Guarantees.HistoryDepth
open Library Library.LinkedList Source Source.ReaderCache Cache

variable {δ : Type}

/-- The latest `depth` entries of a log. -/
def latest {β : Type} (depth : Nat) (log : List β) : List β := log.drop (log.length - depth)

section

variable {β : Type} {depth : Nat} {log : List β} {xs : List Nat} {data : Nat → Option β}
  {ptr : Nat} {v : β}

theorem latest_length : (latest depth log).length = min log.length depth := by
  unfold latest
  rw [List.length_drop]
  omega

theorem latest_of_le (h : log.length ≤ depth) : latest depth log = log := by
  unfold latest
  rw [Nat.sub_eq_zero_of_le h, List.drop_zero]

theorem latest_concat (h : depth ≤ log.length) :
    latest depth (log ++ [v]) = (latest depth log ++ [v]).tail := by
  have hcount : (log ++ [v]).length - depth = log.length - depth + 1 := by
    rw [List.length_append, List.length_singleton]
    omega
  unfold latest
  rw [hcount, ← List.drop_append_of_le_length (Nat.sub_le _ _), List.tail_drop]

theorem trimmed_latest (pos : 0 < depth) (h : xs.filterMap data = latest depth log)
    (hptr : data ptr = some v) :
    ((if depth < xs.length + 1 then (xs ++ [ptr]).tail else xs ++ [ptr]).filterMap data =
      latest depth (log ++ [v])) ↔
    (depth ≤ xs.length → ((xs.head?.bind data).isSome ↔ depth ≤ (xs.filterMap data).length)) := by
  have hcount : (xs.filterMap data).length = min log.length depth := by
    rw [h, latest_length]
  have hptr' : [ptr].filterMap data = [v] := by simp [hptr]
  by_cases hfull : depth ≤ xs.length
  · rw [if_pos (by omega)]
    obtain ⟨x, rest, rfl⟩ := List.exists_cons_of_length_pos (Nat.lt_of_lt_of_le pos hfull)
    rw [List.cons_append, List.tail_cons, List.filterMap_append, hptr', List.head?_cons,
      Option.bind_some]
    have hlog : depth ≤ ((x :: rest).filterMap data).length ↔ depth ≤ log.length := by omega
    rw [hlog]
    have hgoal : ∀ {P : Prop}, (P ↔ ((data x).isSome ↔ depth ≤ log.length)) →
        (P ↔ (depth ≤ (x :: rest).length → ((data x).isSome ↔ depth ≤ log.length))) := by
      intro P hP
      exact hP.trans ⟨fun hiff _ => hiff, fun hiff => hiff hfull⟩
    apply hgoal
    cases hx : data x with
    | some u =>
      rw [List.filterMap_cons_some hx] at h
      by_cases hd : depth ≤ log.length
      · rw [latest_concat hd, ← h]
        simp [hd]
      · rw [latest_of_le (by simp; omega)]
        rw [latest_of_le (by omega)] at h
        apply iff_of_false
        · intro heq
          have hlength := congrArg List.length heq
          rw [← h] at hlength
          simp at hlength
        · simp [hd]
    | none =>
      rw [List.filterMap_cons_none hx] at h hcount
      by_cases hd : depth ≤ log.length
      · rw [latest_concat hd, ← h]
        apply iff_of_false
        · intro heq
          have hlength := congrArg List.length heq
          simp at hlength
        · simp [hd]
      · rw [latest_of_le (by simp; omega)]
        rw [latest_of_le (by omega)] at h
        rw [h]
        simp [hd]
  · rw [if_neg (by omega), List.filterMap_append, hptr']
    have hshort := List.length_filterMap_le data xs
    have hlog : log.length < depth := by omega
    rw [latest_of_le (Nat.le_of_lt hlog)] at h
    rw [latest_of_le (by simp; omega), h]
    exact iff_of_true rfl fun hfull' => absurd hfull' hfull

end

def received (c : Cache δ) (key : Nat) : List Nat :=
  match (c.instanceMap.lookup key).bind c.getHandleInstance with
  | some inst =>
    (walk c.links.nextDataSample inst.rcvdSamples.size.toNat inst.rcvdSamples.head).getD []
  | none => []

def dataOf (c : Cache δ) (a : Nat) : Option (Nat × δ) := (c.element a).registeredData.map (a, ·)

def dataSamples (c : Cache δ) (key : Nat) : List (Nat × δ) :=
  (received c key).filterMap (dataOf c)

/-- A cache with the data samples of an instance that were accepted so far. -/
structure History (δ : Type) where
  cache : Cache δ
  accepted : List (Nat × δ)

def History.store (h : History δ) (qos : Qos) (msg : Message δ) : Except Fault (History δ) :=
  (h.cache.storeInstanceData qos msg msg.newElement).map fun stored =>
    ⟨stored.2, if msg.messageId = .sampleData then h.accepted ++ [(msg.newElement, msg.data)]
      else h.accepted⟩

/-- A data sample or a notice for the instance of a key that nothing keeps out. -/
structure Accepts (qos : Qos) (key : Nat) (c : Cache δ) (msg : Message δ) : Prop where
  kind : msg.messageId = .sampleData ∨ msg.messageId = .disposeInstance ∨
    msg.messageId = .unregisterInstance
  own : msg.key = key
  unfiltered : msg.filtered = false
  handle : c.getHandleInstance msg.newHandle = none
  element : c.refCount msg.newElement = 0
  room : msg.messageId = .sampleData → ¬ Unentered c qos msg ∧ ¬ Limited c qos msg (received c key)

instance {qos : Qos} {key : Nat} {c : Cache δ} {msg : Message δ} :
    Decidable (Accepts qos key c msg) :=
  decidable_of_iff ((msg.messageId = .sampleData ∨ msg.messageId = .disposeInstance ∨
      msg.messageId = .unregisterInstance) ∧ msg.key = key ∧ msg.filtered = false ∧
      c.getHandleInstance msg.newHandle = none ∧ c.refCount msg.newElement = 0 ∧
      (msg.messageId = .sampleData → ¬ Unentered c qos msg ∧ ¬ Limited c qos msg (received c key)))
    ⟨fun ⟨h₁, h₂, h₃, h₄, h₅, h₆⟩ => ⟨h₁, h₂, h₃, h₄, h₅, h₆⟩,
      fun ⟨h₁, h₂, h₃, h₄, h₅, h₆⟩ => ⟨h₁, h₂, h₃, h₄, h₅, h₆⟩⟩

def Happens (qos : Qos) (key : Nat) (h : History δ) (msg : Message δ) (h' : History δ) : Prop :=
  Accepts qos key h.cache msg ∧ h.store qos msg = .ok h'

/-- The data samples of the instance are the latest accepted ones. -/
def Recent (qos : Qos) (key : Nat) (h : History δ) : Prop :=
  dataSamples h.cache key = latest qos.depth.toNat h.accepted

instance [DecidableEq δ] {qos : Qos} {key : Nat} {h : History δ} : Decidable (Recent qos key h) :=
  inferInstanceAs (Decidable (_ = _))

/-- The condition: a data sample that meets a list as long as the depth finds a data sample at
its head exactly where there are `depth` of them. -/
def TrimsData (qos : Qos) (key : Nat) (c : Cache δ) (msg : Message δ) : Prop :=
  msg.messageId = .sampleData → qos.depth.toNat ≤ (received c key).length →
    (((received c key).head?.bind (dataOf c)).isSome ↔ qos.depth.toNat ≤ (dataSamples c key).length)

instance {qos : Qos} {key : Nat} {c : Cache δ} {msg : Message δ} :
    Decidable (TrimsData qos key c msg) :=
  inferInstanceAs (Decidable (_ → _ → (_ ↔ _)))

def HappensTrimming (qos : Qos) (key : Nat) (h : History δ) (msg : Message δ) (h' : History δ) :
    Prop :=
  Happens qos key h msg h' ∧ TrimsData qos key h.cache msg

variable {c c' : Cache δ} {samples : Nat → List Nat} {qos : Qos} {key : Nat} {msg : Message δ}
  {h h' : History δ}

theorem received_eq (w : Wf c samples) {handle : Nat}
    (hkey : c.instanceMap.lookup key = some handle) : received c key = samples handle := by
  obtain ⟨inst, hinst⟩ :=
    Option.isSome_iff_exists.mp (w.mapped (key, handle) (AssociationList.mem_of_lookup hkey))
  unfold received
  rw [hkey, Option.bind_some, hinst]
  dsimp only
  rw [(w.lists handle inst hinst).walk]
  rfl

theorem received_own (w : Wf c samples) : received c msg.key = ownSamples c samples msg := by
  unfold ownSamples
  cases hkey : c.instanceMap.lookup msg.key with
  | some handle => exact received_eq w hkey
  | none =>
    unfold received
    rw [hkey]
    rfl

theorem Accepts.unused (w : Wf c samples) (a : Accepts qos key c msg) : Unused c samples msg where
  handle := a.handle
  element i hin := by
    have hlive := w.live i _ hin
    rw [a.element] at hlive
    exact Nat.lt_irrefl 0 hlive

theorem filterMap_dataOf {xs : List Nat} (same : ∀ a ∈ xs, c'.element a = c.element a) :
    xs.filterMap (dataOf c') = xs.filterMap (dataOf c) := by
  apply List.filterMap_congr
  intro a ha
  unfold dataOf
  rw [same a ha]

theorem store_data (w : Wf c samples) (valid : qos.Valid) (reception : qos.bySourceTimestamp = false)
    (a : Accepts qos key c msg) (data : msg.messageId = .sampleData) :
    ∃ stored c' samples', c.storeInstanceData qos msg msg.newElement = .ok (stored, c') ∧
      Wf c' samples' ∧ received c' key = kept qos msg (received c key ++ [msg.newElement]) ∧
      (∀ x ∈ received c key, c'.element x = c.element x) ∧
      dataOf c' msg.newElement = some (msg.newElement, msg.data) := by
  have hfresh := a.unused w
  have hnotice : msg.isNotice = false := by simp [Message.isNotice, data]
  have hunregistered : msg.messageId ≠ .instanceRegistration := by simp [data]
  have hpasses : ¬ (msg.messageId = .sampleData ∧ msg.filtered = true) := by simp [a.unfiltered]
  obtain ⟨hentered, hroom⟩ := a.room data
  have hown : received c key = ownSamples c samples msg := a.own ▸ received_own w
  rw [hown] at hroom ⊢
  have hsafe : ¬ StoreHazard c qos msg (ownState c qos msg) (ownSamples c samples msg) := by
    intro hazard
    cases hazard with
    | noSample limited => exact hroom limited
    | lostInstance loses => exact hroom loses.1
    | takenSample _ _ isTaken => cases isTaken
    | lostSample _ loses =>
      obtain ⟨-, hsource, -⟩ := loses
      simp [reception] at hsource
  obtain ⟨handle, just, c₁, c', h, hok, hcase⟩ :=
    storeInstanceData_data w hfresh valid.depth_pos hnotice hentered hunregistered hpasses hsafe
  rcases hcase with ⟨hrejects, -⟩ | ⟨-, hdata⟩
  · exact absurd hrejects.1 (h.list ▸ hroom)
  · have hlist : kept qos msg (queued c₁ qos msg msg.newElement (room c₁ qos msg (samples handle))) =
        kept qos msg (ownSamples c samples msg ++ [msg.newElement]) := by
      have hfree : ¬ Limited c qos msg (samples handle) := h.list ▸ hroom
      unfold queued inserted
      rw [h.room_eq, room, if_neg hfree, reception, if_neg Bool.false_ne_true, h.list]
    have hkey : c'.instanceMap.lookup key = some handle := by
      rw [hdata.touches.map, ← a.own]
      exact h.key
    refine ⟨_, c', _, hok, hdata.wf, ?_, ?_, ?_⟩
    · rw [received_eq hdata.wf hkey, Function.update_self, hlist]
    · intro x hx
      rw [← h.list] at hx
      rw [hdata.touches.elements x fun heq => hfresh.element handle (heq ▸ hx), h.element]
    · unfold dataOf
      rw [hdata.element]
      simp [newSample, hnotice]

theorem store_notice (w : Wf c samples) (reception : qos.bySourceTimestamp = false)
    (a : Accepts qos key c msg) (notice : msg.isNotice = true) :
    ∃ stored c' samples', c.storeInstanceData qos msg msg.newElement = .ok (stored, c') ∧
      Wf c' samples' ∧ dataSamples c' key = dataSamples c key := by
  have hfresh := a.unused w
  have hid := notice_id notice
  by_cases hentered : Unentered c qos msg
  · exact ⟨_, c, samples, storeInstanceData_unentered hentered, w, rfl⟩
  · obtain ⟨handle, just, c₁, henter, h⟩ := enter_entered w hfresh hentered
    obtain ⟨inst, hfound, -⟩ := h.found
    obtain ⟨c', list, empty, hok, hw, htouches, -, helement⟩ :=
      storeAt_notice qos h.wf hfound hfresh.element notice
    have hstore := storeInstanceData_entered msg.newElement false henter hid.1 (fun hk => hid.2 hk.1)
    rw [hok] at hstore
    refine ⟨_, c', _, hstore, hw, ?_⟩
    have hkey : c'.instanceMap.lookup key = some handle := by
      rw [htouches.map, ← a.own]
      exact h.key
    have hown : received c key = samples handle := by
      rw [h.list, ← a.own]
      exact received_own w
    have hsame : (samples handle).filterMap (dataOf c') = (samples handle).filterMap (dataOf c) := by
      apply filterMap_dataOf
      intro x hx
      rw [htouches.elements x fun heq => hfresh.element handle (heq ▸ hx), h.element]
    unfold dataSamples
    rw [received_eq hw hkey, Function.update_self, hown]
    split
    · rename_i htold
      have hptr : dataOf c' msg.newElement = none := by
        unfold dataOf
        rw [helement htold]
        simp [newSample, notice]
      unfold queued inserted
      rw [reception, if_neg Bool.false_ne_true, List.filterMap_append, hsame]
      simp [hptr]
    · exact hsame

theorem kept_eq (valid : qos.Valid) (data : msg.isNotice = false) (xs : List Nat) (ptr : Nat) :
    kept qos msg (xs ++ [ptr]) = if qos.depth.toNat < xs.length + 1 then (xs ++ [ptr]).tail
      else xs ++ [ptr] := by
  have hdepth := valid.depth_pos
  have hiff : Trims qos msg (xs ++ [ptr]) ↔ qos.depth.toNat < xs.length + 1 := by
    unfold Trims
    rw [List.length_append, List.length_singleton]
    constructor
    · rintro ⟨-, hlong⟩
      omega
    · intro hlong
      exact ⟨data, by omega⟩
  exact if_congr hiff rfl rfl

section

variable (w : Wf h.cache samples) (valid : qos.Valid) (reception : qos.bySourceTimestamp = false)
include w valid reception

theorem Recent.sample_iff (recent : Recent qos key h) (step : Happens qos key h msg h')
    (data : msg.messageId = .sampleData) : Recent qos key h' ↔ TrimsData qos key h.cache msg := by
  obtain ⟨a, hstore⟩ := step
  obtain ⟨stored, c', samples', hok, -, hreceived, hsame, hptr⟩ :=
    store_data w valid reception a data
  unfold History.store at hstore
  rw [hok] at hstore
  cases hstore
  have hnotice : msg.isNotice = false := by simp [Message.isNotice, data]
  have hpos : 0 < qos.depth.toNat := by
    have hdepth := valid.depth_pos
    omega
  have hbefore : (received h.cache key).filterMap (dataOf c') = latest qos.depth.toNat h.accepted :=
    (filterMap_dataOf hsame).trans recent
  have hhead : (received h.cache key).head?.bind (dataOf c') =
      (received h.cache key).head?.bind (dataOf h.cache) := by
    cases hxs : received h.cache key with
    | nil => rfl
    | cons x xs =>
      rw [List.head?_cons, Option.bind_some, Option.bind_some]
      unfold dataOf
      rw [hsame x (by rw [hxs]; exact List.mem_cons_self)]
  unfold Recent dataSamples
  rw [if_pos data, hreceived, kept_eq valid hnotice, trimmed_latest hpos hbefore hptr, hhead,
    filterMap_dataOf hsame]
  exact ⟨fun hcond _ => hcond, fun hcond => hcond data⟩

theorem happens (a : Accepts qos key h.cache msg) :
    ∃ h' samples', h.store qos msg = .ok h' ∧ Wf h'.cache samples' := by
  unfold History.store
  by_cases hdata : msg.messageId = .sampleData
  · obtain ⟨stored, c', samples', hok, hw, -⟩ := store_data w valid reception a hdata
    rw [hok]
    exact ⟨_, samples', rfl, hw⟩
  · have hnotice : msg.isNotice = true := by
      rcases a.kind with hk | hk | hk
      · exact absurd hk hdata
      · simp [Message.isNotice, hk]
      · simp [Message.isNotice, hk]
    obtain ⟨stored, c', samples', hok, hw, -⟩ := store_notice w reception a hnotice
    rw [hok]
    exact ⟨_, samples', rfl, hw⟩

theorem Happens.wf (step : Happens qos key h msg h') : ∃ samples', Wf h'.cache samples' := by
  obtain ⟨after, samples', hok, hw⟩ := happens w valid reception step.1
  rw [step.2] at hok
  cases hok
  exact ⟨samples', hw⟩

end

theorem Recent.notice (w : Wf h.cache samples) (reception : qos.bySourceTimestamp = false)
    (recent : Recent qos key h) (step : Happens qos key h msg h')
    (notice : msg.messageId ≠ .sampleData) : Recent qos key h' := by
  obtain ⟨a, hstore⟩ := step
  have hnotice : msg.isNotice = true := by
    rcases a.kind with hk | hk | hk
    · exact absurd hk notice
    · simp [Message.isNotice, hk]
    · simp [Message.isNotice, hk]
  obtain ⟨stored, c', samples', hok, -, hsame⟩ := store_notice w reception a hnotice
  unfold History.store at hstore
  rw [hok] at hstore
  cases hstore
  unfold Recent
  rw [hsame, if_neg notice]
  exact recent

structure Unknown (h : History δ) (key : Nat) : Prop where
  wf : ∃ samples, Wf h.cache samples
  key : h.cache.instanceMap.lookup key = none
  accepted : h.accepted = []

/-- As long as each data sample meets the condition, the data samples of the instance are the
latest accepted ones; the first data sample that does not leaves others. No message fails. -/
theorem history_depth (valid : qos.Valid) (reception : qos.bySourceTimestamp = false)
    (unknown : Unknown h key) :
    (∀ msgs s, Run h (HappensTrimming qos key) msgs s → Recent qos key s) ∧
    (∀ msgs msg s s', Run h (HappensTrimming qos key) msgs s → Happens qos key s msg s' →
      msg.messageId = .sampleData → (Recent qos key s' ↔ TrimsData qos key s.cache msg)) ∧
    (∀ msgs msg s, Run h (Happens qos key) msgs s → Accepts qos key s.cache msg →
      ∃ s', Happens qos key s msg s') := by
  have hstart : Recent qos key h := by
    unfold Recent dataSamples received
    rw [unknown.key, unknown.accepted, latest_of_le (Nat.zero_le _)]
    rfl
  have hrun : ∀ msgs s, Run h (HappensTrimming qos key) msgs s →
      (∃ samples, Wf s.cache samples) ∧ Recent qos key s := by
    intro msgs s run
    apply run.invariant (fun s => (∃ samples, Wf s.cache samples) ∧ Recent qos key s)
      ⟨unknown.wf, hstart⟩
    rintro s msg s' ⟨⟨samples, w⟩, hrecent⟩ ⟨hstep, htrims⟩
    refine ⟨hstep.wf w valid reception, ?_⟩
    by_cases hdata : msg.messageId = .sampleData
    · exact (hrecent.sample_iff w valid reception hstep hdata).mpr htrims
    · exact hrecent.notice w reception hstep hdata
  refine ⟨fun msgs s run => (hrun msgs s run).2, ?_, ?_⟩
  · intro msgs msg s s' run hstep hdata
    obtain ⟨⟨samples, w⟩, hrecent⟩ := hrun msgs s run
    exact hrecent.sample_iff w valid reception hstep hdata
  · intro msgs msg s run haccepts
    have hwf : ∃ samples, Wf s.cache samples := by
      apply run.invariant (fun s => ∃ samples, Wf s.cache samples) unknown.wf
      rintro s msg s' ⟨samples, w⟩ hstep
      exact hstep.wf w valid reception
    obtain ⟨samples, w⟩ := hwf
    obtain ⟨s', -, hok, -⟩ := happens w valid reception haccepts
    exact ⟨s', haccepts, hok⟩

def keepLast : Qos where
  maxSamples := lengthUnlimited
  maxInstances := lengthUnlimited
  maxSamplesPerInstance := lengthUnlimited
  keepAll := false
  historyDepth := 1
  bySourceTimestamp := false
  lifecycle := ⟨QosHelper.durationInfinite, QosHelper.durationInfinite⟩
  exclusive := false
  watchdog := false

theorem keepLast_valid : keepLast.Valid :=
  ⟨.inl rfl, .inl rfl, .inl rfl, .inr (by decide)⟩

/-- A message of writer 1, whose element is at the given address. -/
def messageAt (messageId : MessageId) (address : Nat) : Message Nat where
  messageId := messageId
  pub := 1
  publisherId := 1
  coherentChange := false
  sourceTimestamp := 0
  key := 1
  data := address
  expired := false
  contentFiltered := false
  filtered := false
  isOwner := false
  verdict := .pending
  newHandle := address
  newElement := address
  secondElement := 0

def nothing : History Nat where
  cache := {
    links := ⟨fun _ => none, fun _ => none⟩
    element := fun _ => newSample (.create 1 false) (messageAt .sampleData 0)
    refCount := fun _ => 0
    instanceMap := []
    instances := [] }
  accepted := []

theorem nothing_unknown : Unknown nothing 1 where
  wf := by
    refine ⟨fun _ => [], ?_, List.nodup_nil, ?_, ?_, ?_, ?_⟩
    · intro entry hentry
      cases hentry
    · intro handle inst hinst
      cases hinst
    · intro handle _
      rfl
    · exact ⟨fun _ => List.nodup_nil, fun hi => nomatch hi⟩
    · intro handle a ha
      cases ha
  key := rfl
  accepted := rfl

def replay (msgs : List (Message Nat)) : History Nat :=
  msgs.foldl (fun h msg => (h.store keepLast msg).toOption.getD h) nothing

/-- Two data samples with a disposal between them: the second costs the first, and the notice
stays. -/
theorem history_depth_two : Recent keepLast 1
    (replay [messageAt .sampleData 10, messageAt .disposeInstance 11, messageAt .sampleData 12]) := by
  apply (history_depth keepLast_valid rfl nothing_unknown).1
    [messageAt .sampleData 10, messageAt .disposeInstance 11, messageAt .sampleData 12]
  have hfirst : Run nothing (HappensTrimming keepLast 1) [messageAt .sampleData 10]
      (replay [messageAt .sampleData 10]) := .next .start ⟨⟨by decide, rfl⟩, by decide⟩
  have hdisposed : Run nothing (HappensTrimming keepLast 1)
      [messageAt .sampleData 10, messageAt .disposeInstance 11]
      (replay [messageAt .sampleData 10, messageAt .disposeInstance 11]) :=
    hfirst.next ⟨⟨by decide, rfl⟩, by decide⟩
  exact hdisposed.next ⟨⟨by decide, rfl⟩, by decide⟩

/-- With a disposal between them, the second data sample costs the first, the third costs the
notice, and two data samples are left. -/
theorem two_data_samples_kept : ¬ ∀ (qos : Qos) (key : Nat) (h : History Nat)
    (msgs : List (Message Nat)) (msg : Message Nat) (s s' : History Nat), qos.Valid →
    qos.bySourceTimestamp = false → Unknown h key → Run h (Happens qos key) msgs s →
    Happens qos key s msg s' → msg.messageId = .sampleData → Recent qos key s' := by
  intro hclaim
  have hdata : Run nothing (Happens keepLast 1) [messageAt .sampleData 10]
      (replay [messageAt .sampleData 10]) := .next .start ⟨by decide, rfl⟩
  have hdisposed : Run nothing (Happens keepLast 1)
      [messageAt .sampleData 10, messageAt .disposeInstance 11]
      (replay [messageAt .sampleData 10, messageAt .disposeInstance 11]) :=
    hdata.next ⟨by decide, rfl⟩
  have hrevived : Run nothing (Happens keepLast 1)
      [messageAt .sampleData 10, messageAt .disposeInstance 11, messageAt .sampleData 12]
      (replay [messageAt .sampleData 10, messageAt .disposeInstance 11,
        messageAt .sampleData 12]) :=
    hdisposed.next ⟨by decide, rfl⟩
  have hrecent := hclaim keepLast 1 nothing _ (messageAt .sampleData 13) _
    (replay [messageAt .sampleData 10, messageAt .disposeInstance 11, messageAt .sampleData 12,
      messageAt .sampleData 13]) keepLast_valid rfl nothing_unknown hrevived ⟨by decide, rfl⟩ rfl
  revert hrecent
  decide

end OpenDDS.Guarantees.HistoryDepth
