import Mathlib.Algebra.BigOperators.Group.List.Basic
import OpenDDS.Source.CacheOutcome

/-!
# A message in a cache in order

The instance of a message is looked up or made, the message is stored there, and the rest of
`data_received` looks at the coherent set and the deadline. What can go wrong is told from
the state before the message.
-/
namespace OpenDDS.Source.ReaderCache
open Library.LinkedList Library.AssociationList SampleLinks Cache

variable {δ : Type} {c c' c₁ : Cache δ} {samples : Nat → List Nat} {handle ptr : Nat}
  {inst : SubscriptionInstance} {qos : Qos} {msg : Message δ} {xs : List Nat}
  {state : InstanceState} {taken : Bool}

/-- What is allocated for an instance and a sample is not in use. -/
structure Unused (c : Cache δ) (samples : Nat → List Nat) (msg : Message δ) : Prop where
  handle : c.getHandleInstance msg.newHandle = none
  element : ∀ h, msg.newElement ∉ samples h

structure Fresh (c : Cache δ) (samples : Nat → List Nat) (msg : Message δ) : Prop
    extends Unused c samples msg where
  second : ∀ h, msg.secondElement ∉ samples h
  distinct : msg.secondElement ≠ msg.newElement

def Full (c : Cache δ) (qos : Qos) : Prop :=
  qos.maxInstances ≠ lengthUnlimited ∧ (c.instances.length : Int) ≥ qos.maxInstances

instance : Decidable (Full c qos) := inferInstanceAs (Decidable (_ ∧ _))

/-- The message has no instance, and none is made for it. -/
def Unentered (c : Cache δ) (qos : Qos) (msg : Message δ) : Prop :=
  c.instanceMap.lookup msg.key = none ∧ (msg.isNotice = true ∨ Full c qos)

instance : Decidable (Unentered c qos msg) := inferInstanceAs (Decidable (_ ∧ _))

def ownSamples (c : Cache δ) (samples : Nat → List Nat) (msg : Message δ) : List Nat :=
  match c.instanceMap.lookup msg.key with
  | some handle => samples handle
  | none => []

def ownState (c : Cache δ) (qos : Qos) (msg : Message δ) : InstanceState :=
  match (c.instanceMap.lookup msg.key).bind c.getHandleInstance with
  | some inst => inst.instanceState
  | none => .create msg.newHandle qos.exclusive

/-- One of the limits is reached, by `size` samples of an instance or by `total` samples of all. -/
def AtLimit (qos : Qos) (size total : Int) : Prop :=
  (qos.maxSamplesPerInstance ≠ lengthUnlimited ∧ size ≥ qos.maxSamplesPerInstance) ∨
    (qos.maxSamples ≠ lengthUnlimited ∧ total ≥ qos.maxSamples)

instance {size total : Int} : Decidable (AtLimit qos size total) := inferInstanceAs (Decidable (_ ∨ _))

theorem limitReached_iff {size : Int} :
    c.limitReached qos size = true ↔ AtLimit qos size c.totalSamples := by
  unfold limitReached AtLimit
  split_ifs with hown
  · exact iff_of_true rfl (.inl hown)
  · rw [decide_eq_true_iff]
    exact (or_iff_right hown).symm

structure Entered (c c₁ : Cache δ) (samples : Nat → List Nat) (qos : Qos) (msg : Message δ)
    (handle : Nat) : Prop where
  wf : Wf c₁ samples
  key : c₁.instanceMap.lookup msg.key = some handle
  known : c.instanceMap.lookup msg.key = none ∧ handle = msg.newHandle ∨
    c.instanceMap.lookup msg.key = some handle ∧ c₁ = c
  found : ∃ inst, c₁.getHandleInstance handle = some inst ∧ inst.instanceState = ownState c qos msg
  list : samples handle = ownSamples c samples msg
  element : c₁.element = c.element
  total : c₁.totalSamples = c.totalSamples
  distinct : (c.instances.map Prod.fst).Nodup → (c₁.instances.map Prod.fst).Nodup
  others : ∀ h, h ≠ handle → c₁.getHandleInstance h = c.getHandleInstance h

theorem mapped_handle (w : Wf c samples) (h : c.instanceMap.lookup msg.key = some handle) :
    ∃ inst, c.getHandleInstance handle = some inst :=
  Option.isSome_iff_exists.mp (w.mapped (msg.key, handle) (mem_of_lookup h))

theorem entered_known (w : Wf c samples) (h : c.instanceMap.lookup msg.key = some handle) :
    Entered c c samples qos msg handle where
  wf := w
  key := h
  known := Or.inr ⟨h, rfl⟩
  found := by
    obtain ⟨inst, hinst⟩ := mapped_handle w h
    refine ⟨inst, hinst, ?_⟩
    unfold ownState
    rw [h, Option.bind_some, hinst]
  list := by
    unfold ownSamples
    rw [h]
  element := rfl
  total := rfl
  distinct := id
  others _ _ := rfl

theorem insertKey_eq (key handle : Nat) (map : List (Nat × Nat)) : ∃ as bs, map = as ++ bs ∧
    insertKey key handle map = as ++ (key, handle) :: bs :=
  ⟨_, _, List.takeWhile_append_dropWhile.symm, rfl⟩

def withInstance (c : Cache δ) (qos : Qos) (msg : Message δ) : Cache δ :=
  { c with
    instances := c.instances ++ [(msg.newHandle, ⟨.create msg.newHandle qos.exclusive, .empty⟩)]
    instanceMap := insertKey msg.key msg.newHandle c.instanceMap }

theorem getHandleInstance_withInstance (unused : c.getHandleInstance msg.newHandle = none)
    (h : Nat) : (withInstance c qos msg).getHandleInstance h = if h = msg.newHandle then
      some ⟨.create msg.newHandle qos.exclusive, .empty⟩ else c.getHandleInstance h :=
  lookup_concat unused

theorem entered_new (w : Wf c samples) (fresh : Unused c samples msg)
    (unknown : c.instanceMap.lookup msg.key = none) :
    Entered c (withInstance c qos msg) samples qos msg msg.newHandle := by
  obtain ⟨as, bs, hmap, hinsert⟩ := insertKey_eq msg.key msg.newHandle c.instanceMap
  have hfind : ∀ h, (withInstance c qos msg).getHandleInstance h = if h = msg.newHandle then
      some ⟨.create msg.newHandle qos.exclusive, .empty⟩ else c.getHandleInstance h :=
    getHandleInstance_withInstance fresh.handle
  have hvacant := w.vacant msg.newHandle fresh.handle
  have hlists : ∀ handle inst, (withInstance c qos msg).getHandleInstance handle = some inst →
      c.links.Lists inst.rcvdSamples (samples handle) := by
    intro h i hi
    rw [hfind] at hi
    split at hi
    · rename_i heq
      cases hi
      rw [heq, hvacant]
      exact ⟨⟨rfl, rfl, rfl⟩, trivial, trivial⟩
    · exact w.lists h i hi
  constructor
  · constructor
    · intro entry hentry
      rw [hfind]
      split
      · rfl
      · rename_i hne
        apply w.mapped
        have hin : entry ∈ as ++ (msg.key, msg.newHandle) :: bs := hinsert ▸ hentry
        rw [hmap]
        rcases List.mem_append.mp hin with hin | hin
        · exact List.mem_append_left bs hin
        · rcases List.mem_cons.mp hin with rfl | hin
          · exact absurd rfl hne
          · exact List.mem_append_right as hin
    · show ((insertKey msg.key msg.newHandle c.instanceMap).map Prod.snd).Nodup
      have hperm : (insertKey msg.key msg.newHandle c.instanceMap).Perm
          ((msg.key, msg.newHandle) :: c.instanceMap) := by
        rw [hinsert, hmap]
        exact List.perm_middle
      rw [(hperm.map Prod.snd).nodup_iff, List.map_cons]
      refine List.nodup_cons.mpr ⟨?_, w.distinct⟩
      intro hin
      obtain ⟨entry, hentry, heq⟩ := List.mem_map.mp hin
      have hsome := w.mapped entry hentry
      rw [heq, fresh.handle] at hsome
      cases hsome
    · exact hlists
    · intro h hnone
      rw [hfind] at hnone
      split at hnone
      · cases hnone
      · exact w.vacant h hnone
    · exact w.apart
    · exact w.live
  · show (insertKey msg.key msg.newHandle c.instanceMap).lookup msg.key = some msg.newHandle
    rw [hinsert, lookup_insert as bs (hmap ▸ unknown), if_pos rfl]
  · exact .inl ⟨unknown, rfl⟩
  · refine ⟨_, (hfind msg.newHandle).trans (if_pos rfl), ?_⟩
    unfold ownState
    rw [unknown]
    rfl
  · unfold ownSamples
    rw [unknown]
    exact hvacant
  · rfl
  · unfold totalSamples withInstance
    simp [Header.empty]
  · intro hdistinct
    show ((c.instances ++ [_]).map Prod.fst).Nodup
    rw [List.map_append, List.map_cons, List.map_nil, ← List.concat_eq_append]
    refine hdistinct.concat fun hmem => ?_
    obtain ⟨entry, hentry, heq⟩ := List.mem_map.mp hmem
    have hsome := lookup_isSome hentry
    rw [heq, show c.instances.lookup msg.newHandle = none from fresh.handle] at hsome
    cases hsome
  · intro h hne
    rw [hfind, if_neg hne]

theorem enter_entered (w : Wf c samples) (fresh : Unused c samples msg)
    (entered : ¬ Unentered c qos msg) : ∃ handle just c₁,
      c.enter qos msg = (.entered handle just, c₁) ∧ Entered c c₁ samples qos msg handle := by
  unfold enter
  cases hkey : c.instanceMap.lookup msg.key with
  | some handle => exact ⟨handle, false, c, rfl, entered_known w hkey⟩
  | none =>
    have hdata : ¬ msg.isNotice = true := fun h => entered ⟨hkey, .inl h⟩
    have hroom : ¬ Full c qos := fun h => entered ⟨hkey, .inr h⟩
    refine ⟨msg.newHandle, true, withInstance c qos msg, ?_, entered_new w fresh hkey⟩
    rw [if_neg hdata]
    exact if_neg hroom

namespace Entered

variable (h : Entered c c₁ samples qos msg handle)
include h

theorem limited_iff : Limited c₁ qos msg xs ↔ Limited c qos msg xs := by
  unfold Limited
  rw [limitReached_iff, limitReached_iff, h.total]

theorem rejects_iff : Rejects c₁ qos msg xs ↔ Rejects c qos msg xs := by
  unfold Rejects
  rw [h.limited_iff, h.element]

theorem room_eq : room c₁ qos msg xs = room c qos msg xs :=
  if_congr h.limited_iff rfl rfl

theorem losesInstance_iff :
    LosesInstance c₁ qos msg state xs ↔ LosesInstance c qos msg state xs := by
  unfold LosesInstance
  rw [h.limited_iff, h.element]

theorem losesSample_iff : LosesSample c₁ qos msg xs ↔ LosesSample c qos msg xs := by
  unfold LosesSample
  rw [h.room_eq, h.element]

theorem losesUnread_iff : LosesUnread c₁ qos msg xs ↔ LosesUnread c qos msg xs := by
  unfold LosesUnread
  rw [h.room_eq, h.element]

theorem storeHazard_iff :
    StoreHazard c₁ qos msg state xs taken ↔ StoreHazard c qos msg state xs taken := by
  constructor
  · intro hazard
    cases hazard with
    | noSample limited none => exact .noSample (h.limited_iff.mp limited) none
    | lostInstance loses => exact .lostInstance (h.losesInstance_iff.mp loses)
    | lostSample stored loses =>
      exact .lostSample (mt h.rejects_iff.mpr stored) (h.losesSample_iff.mp loses)
    | takenSample stored loses isTaken =>
      exact .takenSample (mt h.rejects_iff.mpr stored) (h.losesUnread_iff.mp loses) isTaken
  · intro hazard
    cases hazard with
    | noSample limited none => exact .noSample (h.limited_iff.mpr limited) none
    | lostInstance loses => exact .lostInstance (h.losesInstance_iff.mpr loses)
    | lostSample stored loses =>
      exact .lostSample (mt h.rejects_iff.mp stored) (h.losesSample_iff.mpr loses)
    | takenSample stored loses isTaken =>
      exact .takenSample (mt h.rejects_iff.mp stored) (h.losesUnread_iff.mpr loses) isTaken

end Entered

theorem storeInstanceData_unentered (h : Unentered c qos msg) :
    c.storeInstanceData qos msg ptr taken = .ok (⟨none, false, false⟩, c) := by
  obtain ⟨hkey, hcase⟩ := h
  unfold storeInstanceData enter
  rw [hkey]
  by_cases hnotice : msg.isNotice = true
  · rw [if_pos hnotice]
  · have hfull : Full c qos := hcase.resolve_left hnotice
    unfold Full at hfull
    rw [if_neg hnotice, if_pos hfull]

theorem storeInstanceData_entered {just : Bool} (ptr : Nat) (taken : Bool)
    (henter : c.enter qos msg = (.entered handle just, c₁))
    (unregistered : msg.messageId ≠ .instanceRegistration)
    (unfiltered : ¬ (msg.messageId = .sampleData ∧ msg.filtered = true)) :
    c.storeInstanceData qos msg ptr taken = (c₁.storeAt qos handle msg ptr taken).map fun stored =>
      (⟨some handle, just, false⟩, stored) := by
  unfold storeInstanceData
  rw [henter]
  dsimp only
  rw [if_neg unregistered, if_neg unfiltered]
  rfl

theorem storeInstanceData_hazard (w : Wf c samples) (fresh : Unused c samples msg)
    (deep : 0 < qos.depth) (entered : ¬ Unentered c qos msg)
    (unregistered : msg.messageId ≠ .instanceRegistration)
    (unfiltered : ¬ (msg.messageId = .sampleData ∧ msg.filtered = true))
    (hazard : StoreHazard c qos msg (ownState c qos msg) (ownSamples c samples msg) taken) :
    ∃ fault, c.storeInstanceData qos msg msg.newElement taken = .error fault ∧
      fault ≠ .unknownInstance := by
  obtain ⟨handle, just, c₁, henter, h⟩ := enter_entered w fresh entered
  obtain ⟨inst, hfound, hstate⟩ := h.found
  rw [← hstate, ← h.list, ← h.storeHazard_iff] at hazard
  obtain ⟨fault, herror, hne⟩ := storeAt_hazard h.wf hfound fresh.element deep hazard
  refine ⟨fault, ?_, hne⟩
  rw [storeInstanceData_entered msg.newElement taken henter unregistered unfiltered, herror]
  rfl

theorem storeInstanceData_data (w : Wf c samples) (fresh : Unused c samples msg)
    (deep : 0 < qos.depth) (data : msg.isNotice = false) (entered : ¬ Unentered c qos msg)
    (unregistered : msg.messageId ≠ .instanceRegistration)
    (unfiltered : ¬ (msg.messageId = .sampleData ∧ msg.filtered = true))
    (safe : ¬ StoreHazard c qos msg (ownState c qos msg) (ownSamples c samples msg) taken) :
    ∃ handle just c₁ c', Entered c c₁ samples qos msg handle ∧
      c.storeInstanceData qos msg msg.newElement taken = .ok (⟨some handle, just, false⟩, c') ∧
      (Rejects c qos msg (samples handle) ∧ c' = c₁ ∨
        ¬ Rejects c qos msg (samples handle) ∧ DataStored c₁ c' samples qos msg
          (ownState c qos msg) handle msg.newElement) := by
  obtain ⟨handle, just, c₁, henter, h⟩ := enter_entered w fresh entered
  obtain ⟨inst, hfound, hstate⟩ := h.found
  rw [← hstate, ← h.list, ← h.storeHazard_iff] at safe
  have hstore := storeInstanceData_entered msg.newElement taken henter unregistered unfiltered
  rcases storeAt_data h.wf hfound fresh.element deep data safe with
    ⟨hrejects, hok⟩ | ⟨hstored, c', hok, hdata⟩
  · rw [hok] at hstore
    exact ⟨handle, just, c₁, c₁, h, hstore, .inl ⟨h.rejects_iff.mp hrejects, rfl⟩⟩
  · rw [hok] at hstore
    rw [hstate] at hdata
    exact ⟨handle, just, c₁, c', h, hstore, .inr ⟨mt h.rejects_iff.mpr hstored, hdata⟩⟩

/-- The message reaches its instance, which has a writer then. -/
def Reached (c : Cache δ) (samples : Nat → List Nat) (qos : Qos) (msg : Message δ) (handle : Nat) :
    Prop :=
  c.instanceMap.lookup msg.key = some handle ∧
    (msg.messageId = .instanceRegistration ∨ ¬ Rejects c qos msg (samples handle))

/-- The instances that a rejected coherent set releases are those of before that the message
does not reach. -/
structure Behind (c c' : Cache δ) (samples samples' : Nat → List Nat) (qos : Qos)
    (msg : Message δ) : Prop where
  wf : Wf c' samples'
  doomed : ∀ writer publisher h, Doomed c' samples' writer publisher h ↔
    Doomed c samples writer publisher h ∧ ¬ Reached c samples qos msg h

theorem behind_unentered (w : Wf c samples) (h : Unentered c qos msg) :
    Behind c c samples samples qos msg where
  wf := w
  doomed writer publisher handle := by
    have hnot : ¬ Reached c samples qos msg handle := by
      rintro ⟨hkey, -⟩
      rw [h.1] at hkey
      cases hkey
    exact (and_iff_left hnot).symm

theorem Entered.behind {samples' : Nat → List Nat} {inst' : SubscriptionInstance}
    (h : Entered c c₁ samples qos msg handle)
    (fresh : Unused c samples msg) (wf : Wf c' samples')
    (reached : c.instanceMap.lookup msg.key = some handle → Reached c samples qos msg handle)
    (found : c'.getHandleInstance handle = some inst')
    (writer : msg.pub ∈ inst'.instanceState.writers)
    (others : ∀ h, h ≠ handle → c'.getHandleInstance h = c₁.getHandleInstance h ∧
      samples' h = samples h)
    (elements : ∀ a, a ≠ msg.newElement → c'.element a = c₁.element a) :
    Behind c c' samples samples' qos msg where
  wf := wf
  doomed w p i := by
    by_cases hi : i = handle
    · subst hi
      constructor
      · rintro ⟨inst, hinst, -, hwriters, -⟩
        rw [found] at hinst
        cases hinst
        rw [hwriters] at writer
        exact absurd writer (Finset.notMem_empty _)
      · rintro ⟨⟨inst, hinst, -⟩, hnot⟩
        rcases h.known with ⟨-, hnew⟩ | ⟨hkey, -⟩
        · rw [hnew, fresh.handle] at hinst
          cases hinst
        · exact absurd (reached hkey) hnot
    · have hnot : ¬ Reached c samples qos msg i := by
        rintro ⟨hkey, -⟩
        rcases h.known with ⟨hnone, -⟩ | ⟨hkey', -⟩
        · rw [hnone] at hkey
          cases hkey
        · rw [hkey'] at hkey
          exact hi (Option.some.inj hkey).symm
      rw [and_iff_left hnot]
      apply doomed_congr
      · exact ((others i hi).1).trans (h.others i hi)
      · exact (others i hi).2
      · intro a ha
        rw [elements a fun heq => fresh.element i (heq ▸ ha), h.element]

theorem DataStored.behind (hdata : DataStored c₁ c' samples qos msg state handle msg.newElement)
    (h : Entered c c₁ samples qos msg handle) (fresh : Unused c samples msg)
    (stored : ¬ Rejects c qos msg (samples handle)) : ∃ samples', Behind c c' samples samples' qos msg := by
  obtain ⟨list, empty, hfound⟩ := hdata.found
  refine ⟨_, h.behind fresh hdata.wf (fun hkey => ⟨hkey, .inr stored⟩) hfound ?_ ?_ ?_⟩
  · exact Finset.mem_insert_self _ _
  · intro i hi
    exact ⟨hdata.touches.others i hi, Function.update_of_ne hi ..⟩
  · exact hdata.touches.elements

theorem Entered.behind_rejected (h : Entered c c₁ samples qos msg handle)
    (unregistered : msg.messageId ≠ .instanceRegistration)
    (rejects : Rejects c qos msg (samples handle)) : Behind c c₁ samples samples qos msg := by
  rcases h.known with ⟨hnone, -⟩ | ⟨hkey, rfl⟩
  · obtain ⟨-, x, hhead, -⟩ := rejects
    rw [h.list] at hhead
    unfold ownSamples at hhead
    rw [hnone] at hhead
    cases hhead
  · refine ⟨h.wf, ?_⟩
    intro writer publisher i
    have hnot : ¬ Reached c₁ samples qos msg i := by
      rintro ⟨hkey', hcase⟩
      rw [hkey] at hkey'
      cases hkey'
      exact (hcase.resolve_left unregistered) rejects
    exact (and_iff_left hnot).symm

/-- A rejected coherent set releases an instance that the message does not reach. -/
def RejectHazard (c : Cache δ) (samples : Nat → List Nat) (qos : Qos) (msg : Message δ) : Prop :=
  msg.coherentChange = true ∧ msg.verdict = .rejected ∧
    ∃ h, Doomed c samples msg.pub msg.publisherId h ∧ ¬ Reached c samples qos msg h

theorem verifySample_spec {samples' : Nat → List Nat} (b : Behind c c' samples samples' qos msg) :
    (RejectHazard c samples qos msg → c'.verifySample msg = .error .releasedInstance) ∧
    (¬ RejectHazard c samples qos msg → ∃ verified, c'.verifySample msg = .ok verified ∧
      ∀ h, (verified.getHandleInstance h).isSome = (c'.getHandleInstance h).isSome) := by
  obtain ⟨hbad, hgood⟩ := verifyCoherent_spec b.wf msg
  unfold verifySample RejectHazard
  by_cases hcoherent : msg.coherentChange = true
  · rw [if_pos hcoherent]
    have hiff : (msg.verdict = .rejected ∧ ∃ h, Doomed c' samples' msg.pub msg.publisherId h) ↔
        (msg.coherentChange = true ∧ msg.verdict = .rejected ∧
          ∃ h, Doomed c samples msg.pub msg.publisherId h ∧ ¬ Reached c samples qos msg h) := by
      simp only [b.doomed, hcoherent, true_and]
    rw [hiff] at hbad hgood
    exact ⟨hbad, hgood⟩
  · rw [if_neg hcoherent]
    constructor
    · rintro ⟨hcoherent', -⟩
      exact absurd hcoherent' hcoherent
    · intro _
      exact ⟨c', rfl, fun _ => rfl⟩

section

variable
  (delivered : ¬ (msg.expired = true ∨ msg.messageId = .sampleData ∧ msg.contentFiltered = true))
include delivered

theorem sampleReceived_eq {stored : Stored}
    (hstore : c.storeInstanceData qos msg msg.newElement taken = .ok (stored, c'))
    (unfiltered : stored.filtered = false) :
    c.sampleReceived qos msg taken = (c'.verifySample msg).bind fun verified =>
      (verified.watchSample qos stored).map fun _ => verified := by
  unfold sampleReceived
  rw [if_neg delivered, hstore]
  dsimp only [bind, Except.bind]
  rw [if_neg (by rw [unfiltered]; exact Bool.false_ne_true)]
  rfl

theorem sampleReceived_entered {samples' : Nat → List Nat} {just : Bool}
    (hstore : c.storeInstanceData qos msg msg.newElement taken = .ok (⟨some handle, just, false⟩, c'))
    (b : Behind c c' samples samples' qos msg) (found : c'.getHandleInstance handle = some inst) :
    (RejectHazard c samples qos msg → c.sampleReceived qos msg taken = .error .releasedInstance) ∧
    (¬ RejectHazard c samples qos msg → ∃ verified, c.sampleReceived qos msg taken = .ok verified) := by
  obtain ⟨hbad, hgood⟩ := verifySample_spec b
  rw [sampleReceived_eq delivered hstore rfl]
  constructor
  · intro hazard
    rw [hbad hazard]
    rfl
  · intro hsafe
    obtain ⟨verified, hok, hsame⟩ := hgood hsafe
    have hsome : (verified.getHandleInstance handle).isSome := by
      rw [hsame, found]
      rfl
    obtain ⟨inst', hinst'⟩ := Option.isSome_iff_exists.mp hsome
    refine ⟨verified, ?_⟩
    rw [hok]
    unfold watchSample
    dsimp only [Except.bind]
    rw [deref_eq_ok hinst']
    split <;> rfl

end

theorem sampleReceived_unentered (w : Wf c samples)
    (delivered : ¬ (msg.expired = true ∨ msg.messageId = .sampleData ∧ msg.contentFiltered = true))
    (h : Unentered c qos msg) :
    (RejectHazard c samples qos msg → c.sampleReceived qos msg taken = .error .releasedInstance) ∧
    (¬ RejectHazard c samples qos msg → qos.watchdog = true →
      c.sampleReceived qos msg taken = .error .rejectedInstance) ∧
    (¬ RejectHazard c samples qos msg → qos.watchdog = false →
      ∃ verified, c.sampleReceived qos msg taken = .ok verified) := by
  obtain ⟨hbad, hgood⟩ := verifySample_spec (behind_unentered w h)
  rw [sampleReceived_eq delivered (storeInstanceData_unentered h) rfl]
  refine ⟨?_, ?_, ?_⟩
  · intro hazard
    rw [hbad hazard]
    rfl
  · intro hsafe hwatchdog
    obtain ⟨verified, hok, -⟩ := hgood hsafe
    rw [hok]
    unfold watchSample
    dsimp only [Except.bind]
    rw [if_pos hwatchdog]
    rfl
  · intro hsafe hwatchdog
    obtain ⟨verified, hok, -⟩ := hgood hsafe
    refine ⟨verified, ?_⟩
    rw [hok]
    unfold watchSample
    dsimp only [Except.bind]
    rw [hwatchdog, if_neg Bool.false_ne_true]
    rfl

theorem registered_behind (taken : Bool) (w : Wf c samples) (fresh : Unused c samples msg)
    (entered : ¬ Unentered c qos msg) (registration : msg.messageId = .instanceRegistration) :
    ∃ handle just c' inst', c.storeInstanceData qos msg msg.newElement taken =
        .ok (⟨some handle, just, false⟩, c') ∧
      Behind c c' samples samples qos msg ∧ c'.getHandleInstance handle = some inst' := by
  obtain ⟨handle, just, c₁, henter, h⟩ := enter_entered w fresh entered
  obtain ⟨inst, hfound, -⟩ := h.found
  have htouches : Touches c₁ (c₁.setInstance handle
      { inst with instanceState := inst.instanceState.lively msg.pub }) handle msg.newElement :=
    touches_setInstance c₁.links _ hfound
  have hfound' := found_setInstance c₁.links
    { inst with instanceState := inst.instanceState.lively msg.pub } hfound
  refine ⟨handle, just, _, _, ?_, ?_, hfound'⟩
  · unfold storeInstanceData
    rw [henter]
    dsimp only
    rw [if_pos registration, deref_eq_ok hfound]
    rfl
  · apply h.behind fresh (h.wf.restate hfound _) (fun hkey => ⟨hkey, .inl registration⟩) hfound'
    · unfold InstanceState.lively
      split <;> exact Finset.mem_insert_self _ _
    · intro i hi
      exact ⟨htouches.others i hi, rfl⟩
    · exact htouches.elements

theorem notice_id (notice : msg.isNotice = true) :
    msg.messageId ≠ .instanceRegistration ∧ msg.messageId ≠ .sampleData := by
  unfold Message.isNotice at notice
  constructor
  · intro h
    simp [h] at notice
  · intro h
    simp [h] at notice

theorem storeInstanceData_notice (qos : Qos) (w : Wf c samples) (fresh : Unused c samples msg)
    (notice : msg.isNotice = true) :
    ∃ stored c', c.storeInstanceData qos msg msg.newElement = .ok (stored, c') := by
  have hid := notice_id notice
  by_cases hentered : Unentered c qos msg
  · exact ⟨_, _, storeInstanceData_unentered hentered⟩
  · obtain ⟨handle, just, c₁, henter, h⟩ := enter_entered w fresh hentered
    obtain ⟨inst, hfound, -⟩ := h.found
    obtain ⟨c', -, -, hok, -⟩ := storeAt_notice qos h.wf hfound fresh.element notice
    have hstore := storeInstanceData_entered msg.newElement false henter hid.1 (fun h => hid.2 h.1)
    rw [hok] at hstore
    exact ⟨_, _, hstore⟩

theorem totalSamples_eq (w : Wf c samples) (distinct : (c.instances.map Prod.fst).Nodup) :
    c.totalSamples = ((c.instances.map Prod.fst).map fun h => ((samples h).length : Int)).sum := by
  unfold totalSamples
  rw [List.map_map]
  congr 1
  apply List.map_congr_left
  rintro ⟨h, inst⟩ hmem
  exact (w.lists h inst ((mem_iff_lookup distinct).mp hmem)).size

theorem sum_lengths_update {handles ys : List Nat} (nodup : handles.Nodup) (hmem : handle ∈ handles) :
    (handles.map fun h => ((Function.update samples handle ys h).length : Int)).sum =
      (handles.map fun h => ((samples h).length : Int)).sum - (samples handle).length + ys.length := by
  have hrest : (handles.erase handle).map
        (fun h => ((Function.update samples handle ys h).length : Int)) =
      (handles.erase handle).map fun h => ((samples h).length : Int) := by
    apply List.map_congr_left
    intro h hin
    rw [Function.update_of_ne]
    rintro rfl
    exact nodup.not_mem_erase hin
  rw [← List.sum_map_erase _ hmem, ← List.sum_map_erase (fun h => ((samples h).length : Int)) hmem,
    hrest, Function.update_self]
  omega

/-- The samples of an instance that had `xs` and stores the first sample of a message. -/
def storedFirst (c : Cache δ) (qos : Qos) (msg : Message δ) (xs : List Nat) : List Nat :=
  kept qos msg (queued c qos msg msg.newElement (room c qos msg xs))

/-- The second sample of a message is stored as well, and one that has not been read is trimmed
for it, maybe the first of the message. -/
def LosesSecond (c : Cache δ) (qos : Qos) (msg : Message δ) (xs : List Nat) : Prop :=
  let ys := storedFirst c qos msg xs
  let limited := AtLimit qos ys.length (c.totalSamples - xs.length + ys.length)
  let unread (a : Nat) := a = msg.newElement ∨ (c.element a).sampleState = .notRead
  ¬ (limited ∧ ∃ x, ys.head? = some x ∧ unread x) ∧
    ∃ y rest, (if limited then ys.tail else ys) = y :: rest ∧ qos.depth < rest.length + 2 ∧ unread y

theorem Entered.losesSecond_iff (h : Entered c c₁ samples qos msg handle)
    (distinct : (c.instances.map Prod.fst).Nodup) (data : msg.isNotice = false)
    (stored : DataStored c₁ c' samples qos msg state handle msg.newElement) :
    ¬ Rejects c' qos msg (storedFirst c₁ qos msg (samples handle)) ∧
      LosesUnread c' qos msg (storedFirst c₁ qos msg (samples handle)) ↔
    LosesSecond c qos msg (samples handle) := by
  obtain ⟨inst, hfound, -⟩ := h.found
  have hfirst : storedFirst c₁ qos msg (samples handle) = storedFirst c qos msg (samples handle) := by
    unfold storedFirst queued timestamps
    rw [h.room_eq, h.element]
  have htotal : c'.totalSamples = c.totalSamples - (samples handle).length +
      (storedFirst c₁ qos msg (samples handle)).length := by
    have hnodup := h.distinct distinct
    rw [totalSamples_eq stored.wf (stored.touches.handles ▸ hnodup), stored.touches.handles,
      sum_lengths_update hnodup (List.mem_map_of_mem (f := Prod.fst) (mem_of_lookup hfound)),
      ← totalSamples_eq h.wf hnodup, h.total]
    rfl
  have hunread : ∀ a, (c'.element a).sampleState = .notRead ↔
      a = msg.newElement ∨ (c.element a).sampleState = .notRead := by
    intro a
    by_cases ha : a = msg.newElement
    · rw [ha, stored.element]
      exact iff_of_true rfl (.inl rfl)
    · rw [stored.touches.elements a ha, h.element]
      exact (or_iff_right ha).symm
  unfold Rejects LosesUnread room Limited LosesSecond
  simp only [limitReached_iff, htotal, hunread, data, and_true, true_and, hfirst]

section

variable (w : Wf c samples) (fresh : Fresh c samples msg)
  (distinct : (c.instances.map Prod.fst).Nodup)
  (deep : 0 < qos.depth) (data : msg.isNotice = false) (entered : ¬ Unentered c qos msg)
  (unregistered : msg.messageId ≠ .instanceRegistration)
  (unfiltered : ¬ (msg.messageId = .sampleData ∧ msg.filtered = true))
  (safe : ¬ StoreHazard c qos msg (ownState c qos msg) (ownSamples c samples msg) taken)
include w fresh distinct deep data entered unregistered unfiltered safe

theorem storeInstanceData_leaves :
    ∃ first c' handle inst' samples',
      c.storeInstanceData qos msg msg.newElement taken = .ok (first, c') ∧ Wf c' samples' ∧
      c'.instanceMap.lookup msg.key = some handle ∧ c'.getHandleInstance handle = some inst' ∧
      (∀ i, msg.secondElement ∉ samples' i) ∧
      ¬ StoreHazard c' qos msg inst'.instanceState (samples' handle) ∧
      (¬ Rejects c' qos msg (samples' handle) ∧ LosesUnread c' qos msg (samples' handle) ↔
        ¬ Rejects c qos msg (ownSamples c samples msg) ∧
          LosesSecond c qos msg (ownSamples c samples msg)) := by
  obtain ⟨handle, just, c₁, c', h, hstore, hcase⟩ :=
    storeInstanceData_data w fresh.toUnused deep data entered unregistered unfiltered safe
  rw [storeHazard_iff_taken, not_or] at safe
  rcases hcase with ⟨hrejects, rfl⟩ | ⟨hstored, hdata⟩
  · obtain ⟨inst, hfound, hstate⟩ := h.found
    refine ⟨_, c', handle, inst, samples, hstore, h.wf, h.key, hfound, fresh.second, ?_, ?_⟩
    · rw [h.storeHazard_iff, hstate, h.list]
      exact safe.1
    · exact iff_of_false (fun hboth => hboth.1 (h.rejects_iff.mpr hrejects))
        fun hboth => hboth.1 (h.list ▸ hrejects)
  · obtain ⟨list, empty, hfound⟩ := hdata.found
    have hkey : c'.instanceMap.lookup msg.key = some handle := by
      rw [hdata.touches.map]
      exact h.key
    have hsample : ¬ LosesSample c₁ qos msg (samples handle) := by
      rw [h.losesSample_iff, h.list]
      intro hloses
      exact safe.1 (.lostSample (h.list ▸ hstored) hloses)
    refine ⟨_, c', handle, _, _, hstore, hdata.wf, hkey, hfound, ?_, ?_, ?_⟩
    · intro i hin
      by_cases hi : i = handle
      · rw [hi, Function.update_self] at hin
        rcases kept_mem hin with heq | hin
        · exact fresh.distinct heq
        · exact fresh.second handle (room_subset _ hin)
      · rw [Function.update_of_ne hi] at hin
        exact fresh.second i hin
    · rw [Function.update_self]
      exact hdata.again deep data (fresh.element handle) hsample rfl
    · rw [Function.update_self, ← h.list]
      exact (h.losesSecond_iff distinct data hdata).trans (and_iff_right hstored).symm

theorem storeInstanceData_twice (again : Bool) :
    ∃ first c', c.storeInstanceData qos msg msg.newElement taken = .ok (first, c') ∧
      (¬ Rejects c qos msg (ownSamples c samples msg) ∧
          LosesSecond c qos msg (ownSamples c samples msg) ∧ again = true →
        ∃ fault, c'.storeInstanceData qos msg msg.secondElement again = .error fault ∧
          fault ≠ .unknownInstance) ∧
      (¬ (¬ Rejects c qos msg (ownSamples c samples msg) ∧
          LosesSecond c qos msg (ownSamples c samples msg) ∧ again = true) →
        ∃ second, c'.storeInstanceData qos msg msg.secondElement again = .ok second) := by
  obtain ⟨first, c', handle, inst, samples', hstore, hw, hkey, hfound, hoff, hsafe, hsecond⟩ :=
    storeInstanceData_leaves w fresh distinct deep data entered unregistered unfiltered safe
  have henter : c'.enter qos msg = (.entered handle false, c') := by
    unfold enter
    rw [hkey]
  have htwice := storeInstanceData_entered msg.secondElement again henter unregistered unfiltered
  rw [← and_assoc, ← hsecond, and_assoc]
  refine ⟨first, c', hstore, ?_, ?_⟩
  · intro htaken
    obtain ⟨fault, herror, hne⟩ :=
      storeAt_hazard hw hfound hoff deep (storeHazard_iff_taken.mpr (.inr htaken))
    rw [herror] at htwice
    exact ⟨fault, htwice, hne⟩
  · intro htaken
    have hcalm : ¬ StoreHazard c' qos msg inst.instanceState (samples' handle) again := by
      rw [storeHazard_iff_taken]
      exact not_or.mpr ⟨hsafe, htaken⟩
    rcases storeAt_data hw hfound hoff deep data hcalm with ⟨-, hok⟩ | ⟨-, c'', hok, -⟩
    · rw [hok] at htwice
      exact ⟨_, htwice⟩
    · rw [hok] at htwice
      exact ⟨_, htwice⟩

end

end OpenDDS.Source.ReaderCache
