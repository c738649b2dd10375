import OpenDDS.Source.Liveliness
import Mathlib.Data.List.Induction

/-!
# The liveliness counters of a data reader

Whatever happens to the writers of a reader, its counters are the numbers of its associated
writers that are alive and that are dead. They are never negative, so the error returns are
not taken. Without a listener, and as long as nobody reads the status, the changes add up to
the counters.
-/
namespace OpenDDS.Guarantees.LivelinessCounters

open Source.Liveliness Library

inductive Event where
  | addAssociation (writerId handle : Nat) (associated : Bool) (now later : Int)
  | message (writerId : Nat) (numbered : Bool) (time now later : Int)
  | tick (tv now : Int)
  | writerBecameDead (writerId : Nat) (time : Int)
  | removeAssociations (writers : List Nat) (time : Int)
  | getLivelinessChangedStatus
  | setListener (present : Bool)
  | delete

def Event.perform (r : Reader) : Event → Reader
  | addAssociation writerId handle associated now later =>
    r.addAssociation writerId handle associated now later
  | message writerId numbered time now later => r.writerActivity writerId numbered time now later
  | tick tv now => r.handleTimeout tv now
  | writerBecameDead writerId time =>
    match r.writers.find writerId with
    | none => r
    | some info => r.writerBecameDead writerId info time
  | removeAssociations writers time => r.removeAssociations writers time
  | getLivelinessChangedStatus => r.getLivelinessChangedStatus.2
  | setListener present => { r with hasListener := present }
  | delete => { r with entityDeleted := true }

/-- Neither a read of the status nor a listener. -/
def Event.unobserved : Event → Bool
  | getLivelinessChangedStatus => false
  | setListener present => !present
  | _ => true

def isAlive (info : Writer) : Bool := info.state = .alive
def isDead (info : Writer) : Bool := info.state = .dead

/-- The counters are those of the writers, and no error was reported. -/
structure Sound (r : Reader) : Prop where
  alive : r.status.aliveCount = r.writers.countIn isAlive
  notAlive : r.status.notAliveCount = r.writers.countIn isDead
  valid : ∀ count, Effect.invalidCount count ∉ r.effects

/-- Nobody took notice of the changes yet. -/
structure Unread (r : Reader) : Prop where
  silent : r.hasListener = false
  alive : r.status.aliveCountChange = r.status.aliveCount
  notAlive : r.status.notAliveCountChange = r.status.notAliveCount

structure Keeps (r r' : Reader) : Prop where
  sound : Sound r → Sound r'
  unread : Sound r → Unread r → Unread r'

variable {r r' r'' : Reader} {writerId : Nat} {info info' : Writer} {time now later : Int}

theorem Keeps.refl (r : Reader) : Keeps r r := ⟨id, fun _ => id⟩

theorem Keeps.trans (h : Keeps r r') (h' : Keeps r' r'') : Keeps r r'' where
  sound := h'.sound ∘ h.sound
  unread hsound := h'.unread (h.sound hsound) ∘ h.unread hsound

theorem Keeps.of_eq (hlistener : r'.hasListener = r.hasListener) (hwriters : r'.writers = r.writers)
    (halive : r'.status.aliveCount = r.status.aliveCount)
    (hnotAlive : r'.status.notAliveCount = r.status.notAliveCount)
    (haliveChange : r'.status.aliveCountChange = r.status.aliveCountChange)
    (hnotAliveChange : r'.status.notAliveCountChange = r.status.notAliveCountChange)
    (hvalid : ∀ count, Effect.invalidCount count ∈ r'.effects → Effect.invalidCount count ∈ r.effects) :
    Keeps r r' where
  sound h := by
    refine ⟨?_, ?_, fun count hmem => h.valid count (hvalid count hmem)⟩
    · rw [halive, hwriters, h.alive]
    · rw [hnotAlive, hwriters, h.notAlive]
  unread _ h := by
    refine ⟨by rw [hlistener, h.silent], ?_, ?_⟩
    · rw [haliveChange, halive, h.alive]
    · rw [hnotAliveChange, hnotAlive, h.notAlive]

theorem Keeps.record (effect : Effect) (h : ∀ count, effect ≠ .invalidCount count) :
    Keeps r (r.record effect) := by
  refine .of_eq rfl rfl rfl rfl rfl rfl ?_
  intro count hmem
  rcases List.mem_append.mp hmem with hmem | hmem
  · exact hmem
  · exact absurd (List.mem_singleton.mp hmem).symm (h count)

theorem Keeps.removeOwner (r : Reader) (writerId : Nat) : Keeps r (r.removeOwner writerId) := by
  unfold Reader.removeOwner
  split
  · exact .record _ (by simp)
  · exact .refl r

theorem Keeps.setStatusChanged (r : Reader) : Keeps r r.setStatusChanged :=
  .of_eq rfl rfl rfl rfl rfl rfl fun _ => id

theorem Keeps.notify (r : Reader) : Keeps r r.notifyLivelinessChange where
  sound h := by
    unfold Reader.notifyLivelinessChange
    split
    · obtain ⟨halive, hnotAlive, hvalid⟩ :=
        (Keeps.record (r := r) (.livelinessChanged r.status) (by simp)).sound h
      exact ⟨halive, hnotAlive, hvalid⟩
    · exact h
  unread _ h := by
    unfold Reader.notifyLivelinessChange
    rw [if_neg (by simp [h.silent])]
    exact h

theorem Sound.nonneg (h : Sound r) : 0 ≤ r.status.aliveCount ∧ 0 ≤ r.status.notAliveCount := by
  rw [h.alive, h.notAlive]
  omega

theorem invalidCount_eq_none (h : 0 ≤ r.status.aliveCount ∧ 0 ≤ r.status.notAliveCount) :
    r.invalidCount = none := by
  have halive : ¬ r.status.aliveCount < 0 := by omega
  have hnotAlive : ¬ r.status.notAliveCount < 0 := by omega
  rw [Reader.invalidCount, if_neg halive, if_neg hnotAlive]

theorem Keeps.put (info' : Writer) (hfind : r.writers.find writerId = some info)
    (hwriters : r'.writers = r.writers.put writerId info') (hlistener : r'.hasListener = r.hasListener)
    (heffects : r'.effects = r.effects)
    (halive : r'.status.aliveCount =
      r.status.aliveCount + ((isAlive info').toNat - (isAlive info).toNat : Int))
    (hnotAlive : r'.status.notAliveCount =
      r.status.notAliveCount + ((isDead info').toNat - (isDead info).toNat : Int))
    (haliveChange : r'.status.aliveCountChange =
      r.status.aliveCountChange + ((isAlive info').toNat - (isAlive info).toNat : Int))
    (hnotAliveChange : r'.status.notAliveCountChange =
      r.status.notAliveCountChange + ((isDead info').toNat - (isDead info).toNat : Int)) :
    Keeps r r' where
  sound h := by
    have hcount := fun p => SortedMap.countIn_put p r.writers writerId info'
    simp only [hfind, Option.elim_some] at hcount
    have hcountAlive := hcount isAlive
    have hcountDead := hcount isDead
    refine ⟨?_, ?_, by rw [heffects]; exact h.valid⟩
    · rw [halive, hwriters, h.alive]
      omega
    · rw [hnotAlive, hwriters, h.notAlive]
      omega
  unread _ h := by
    refine ⟨by rw [hlistener, h.silent], ?_, ?_⟩
    · rw [haliveChange, halive, h.alive]
    · rw [hnotAliveChange, hnotAlive, h.notAlive]

theorem Keeps.update (hfind : r.writers.find writerId = some info) (hstate : info'.state = info.state) :
    Keeps r (r.setWriter writerId info') := by
  apply Keeps.put info' hfind
  all_goals simp [Reader.setWriter, isAlive, isDead, hstate]

theorem Keeps.checked {after : Reader} (hnone : Sound r → r'.invalidCount = none)
    (hafter : Keeps r after) :
    Keeps r (match r'.invalidCount with
      | some failed => failed
      | none => after) where
  sound hsound := by
    rw [hnone hsound]
    exact hafter.sound hsound
  unread hsound hunread := by
    rw [hnone hsound]
    exact hafter.unread hsound hunread

theorem removeOwner_writers (r : Reader) (writerId : Nat) :
    (r.removeOwner writerId).writers = r.writers := by
  unfold Reader.removeOwner
  split <;> rfl

theorem Keeps.writerBecameDead (hfind : r.writers.find writerId = some info) (time : Int) :
    Keeps r (r.writerBecameDead writerId info time) := by
  rw [← removeOwner_writers r writerId] at hfind
  apply (Keeps.removeOwner r writerId).trans
  have hcounted : Keeps (r.removeOwner writerId)
      ((((r.removeOwner writerId).countDead info.state).setLastPublication info.handle).setWriter
        writerId { info with state := .dead, seenData := false }) := by
    apply Keeps.put { info with state := .dead, seenData := false } hfind
    all_goals cases hstate : info.state
    all_goals simp [Reader.countDead, Reader.countAlive, Reader.countNotAlive,
      Reader.setLastPublication, Reader.setWriter, isAlive, isDead, hstate]
  apply Keeps.checked
  · intro hsound
    exact invalidCount_eq_none (hcounted.sound hsound).nonneg
  · apply hcounted.trans
    split
    · apply (Keeps.record _ _).trans ((Keeps.setStatusChanged _).trans (Keeps.notify _))
      simp
    · apply Keeps.record
      simp

theorem Keeps.checkActivity (hfind : r.writers.find writerId = some info) (now : Int) :
    Keeps r (r.checkActivity writerId info now).2 := by
  unfold Reader.checkActivity
  dsimp only
  split
  · split
    · exact Keeps.writerBecameDead hfind now
    · exact .refl r
  · exact .refl r

theorem Keeps.checkWriters (now : Int) (ids : List Nat) (r : Reader) :
    Keeps r (Reader.checkWriters now ids r).2 := by
  induction ids generalizing r with
  | nil => exact .refl r
  | cons writerId rest ih =>
    rw [Reader.checkWriters]
    cases hfind : r.writers.find writerId with
    | none => exact ih r
    | some info => exact (Keeps.checkActivity hfind now).trans (ih _)

theorem Keeps.handleTimeout (r : Reader) (tv now : Int) : Keeps r (r.handleTimeout tv now) := by
  unfold Reader.handleTimeout
  apply (Keeps.checkWriters tv r.writers.keys r).trans
  dsimp only
  split
  · exact .of_eq rfl rfl rfl rfl rfl rfl fun _ => id
  · exact .of_eq rfl rfl rfl rfl rfl rfl fun _ => id

theorem Keeps.writerBecameAlive (hfind : r.writers.find writerId = some info) (now later : Int) :
    Keeps r (r.writerBecameAlive writerId info now later) := by
  have hcounted : Keeps r (Reader.setWriter
      ((r.countRevived info.state).setLastPublication info.handle).setStatusChanged writerId
        { info with state := .alive }) := by
    apply Keeps.put { info with state := .alive } hfind
    all_goals cases hstate : info.state
    all_goals simp [Reader.countRevived, Reader.countAlive, Reader.countNotAlive,
      Reader.setLastPublication, Reader.setStatusChanged, Reader.setWriter, isAlive, isDead, hstate]
  apply Keeps.checked
  · intro hsound
    -- The state of the writer is not set yet, but the counters are those after it is.
    have hnonneg := (hcounted.sound hsound).nonneg
    exact invalidCount_eq_none hnonneg
  · apply Keeps.trans _ (Keeps.handleTimeout _ now later)
    split
    · exact hcounted.trans (Keeps.notify _)
    · exact hcounted

theorem Keeps.receivedActivity (hfind : r.writers.find writerId = some info)
    (time now later : Int) : Keeps r (r.receivedActivity writerId info time now later) := by
  unfold Reader.receivedActivity
  have hput : Keeps r (r.setWriter writerId { info with lastLivelinessActivityTime := time }) :=
    Keeps.update hfind rfl
  dsimp only
  split
  · apply hput.trans
    apply Keeps.writerBecameAlive
    simp [Reader.setWriter, SortedMap.find_put]
  · exact hput

theorem Keeps.writerActivity (r : Reader) (writerId : Nat) (numbered : Bool)
    (time now later : Int) : Keeps r (r.writerActivity writerId numbered time now later) := by
  unfold Reader.writerActivity
  split
  · exact .refl r
  · rename_i info hfind
    apply (Keeps.receivedActivity hfind time now later).trans
    dsimp only
    split
    · exact .refl _
    · rename_i info' hfind'
      split
      · exact Keeps.update hfind' rfl
      · exact .refl _

theorem Keeps.erase (hfind : r.writers.find writerId = some info)
    (hwriters : r'.writers = r.writers.erase writerId) (hlistener : r'.hasListener = r.hasListener)
    (heffects : r'.effects = r.effects)
    (halive : r'.status.aliveCount = r.status.aliveCount - (isAlive info).toNat)
    (hnotAlive : r'.status.notAliveCount = r.status.notAliveCount - (isDead info).toNat)
    (haliveChange : r'.status.aliveCountChange = r.status.aliveCountChange - (isAlive info).toNat)
    (hnotAliveChange : r'.status.notAliveCountChange =
      r.status.notAliveCountChange - (isDead info).toNat) :
    Keeps r r' where
  sound h := by
    have hcountAlive := SortedMap.countIn_erase isAlive hfind
    have hcountDead := SortedMap.countIn_erase isDead hfind
    refine ⟨?_, ?_, by rw [heffects]; exact h.valid⟩
    · rw [halive, hwriters, h.alive]
      omega
    · rw [hnotAlive, hwriters, h.notAlive]
      omega
  unread _ h := by
    refine ⟨by rw [hlistener, h.silent], ?_, ?_⟩
    · rw [haliveChange, halive, h.alive]
    · rw [hnotAliveChange, hnotAlive, h.notAlive]

theorem notify_eraseWriter (r : Reader) (writerId : Nat) :
    r.notifyLivelinessChange.eraseWriter writerId =
      (r.eraseWriter writerId).notifyLivelinessChange := by
  unfold Reader.notifyLivelinessChange
  by_cases hlistener : r.hasListener = true
  · rw [if_pos hlistener, if_pos (show (r.eraseWriter writerId).hasListener = true from hlistener)]
    rfl
  · rw [if_neg hlistener, if_neg (show ¬ (r.eraseWriter writerId).hasListener = true from hlistener)]

theorem eraseWriter_writerRemoved (r : Reader) (writerId : Nat) (info : Writer) (time : Int) :
    (r.writerRemoved writerId info time).eraseWriter writerId =
      let counted := (((r.removeOwner writerId).countRemoved info.state).setLastPublication
        info.handle).eraseWriter writerId
      if info.state ≠ .notSet then
        (counted.instancesLivelinessUpdate writerId time).setStatusChanged.notifyLivelinessChange
      else counted.instancesLivelinessUpdate writerId time := by
  unfold Reader.writerRemoved
  split
  · exact notify_eraseWriter _ _
  · rfl

theorem Keeps.removeAssociation (r : Reader) (time : Int) (writerId : Nat) :
    Keeps r (r.removeAssociation time writerId) := by
  unfold Reader.removeAssociation
  split
  · exact .refl r
  · rename_i info hfind
    rw [← removeOwner_writers r writerId] at hfind
    apply (Keeps.removeOwner r writerId).trans
    rw [eraseWriter_writerRemoved]
    have hcounted : Keeps (r.removeOwner writerId)
        ((((r.removeOwner writerId).countRemoved info.state).setLastPublication
          info.handle).eraseWriter writerId) := by
      apply Keeps.erase hfind
      all_goals cases hstate : info.state
      all_goals simp [Reader.countRemoved, Reader.countAlive, Reader.countNotAlive,
        Reader.setLastPublication, Reader.eraseWriter, isAlive, isDead, hstate]
      all_goals omega
    apply hcounted.trans
    split
    · apply (Keeps.record _ _).trans ((Keeps.setStatusChanged _).trans (Keeps.notify _))
      simp
    · apply Keeps.record
      simp

theorem Keeps.removeAssociations (r : Reader) (writers : List Nat) (time : Int) :
    Keeps r (r.removeAssociations writers time) := by
  induction writers generalizing r with
  | nil => exact .refl r
  | cons writerId rest ih => exact (Keeps.removeAssociation r time writerId).trans (ih _)

theorem Keeps.insert (hfind : r.writers.find writerId = none) (hstate : info.state = .notSet) :
    Keeps r (r.setWriter writerId info) where
  sound h := by
    have hcount := fun p => SortedMap.countIn_put p r.writers writerId info
    simp only [hfind, Option.elim_none, Nat.add_zero] at hcount
    refine ⟨?_, ?_, h.valid⟩
    · simpa [Reader.setWriter, hcount isAlive, isAlive, hstate] using h.alive
    · simpa [Reader.setWriter, hcount isDead, isDead, hstate] using h.notAlive
  unread _ h := ⟨h.silent, h.alive, h.notAlive⟩

theorem Keeps.insertWriter (r : Reader) (writerId : Nat) (now : Int) :
    Keeps r (r.insertWriter writerId now) := by
  unfold Reader.insertWriter
  split
  · exact .refl r
  · rename_i hfind
    exact Keeps.insert hfind rfl

theorem Keeps.setHandle (r : Reader) (writerId handle : Nat) :
    Keeps r (r.setHandle writerId handle) := by
  unfold Reader.setHandle
  split
  · exact .refl r
  · rename_i info hfind
    exact Keeps.update hfind rfl

theorem Keeps.addAssociation (r : Reader) (writerId handle : Nat) (associated : Bool)
    (now later : Int) : Keeps r (r.addAssociation writerId handle associated now later) := by
  unfold Reader.addAssociation
  split
  · exact .refl r
  · apply (Keeps.insertWriter r writerId now).trans
    split
    · have htimeout : ∀ r : Reader, Keeps r
          (if r.livelinessLeaseDuration ≠ 0 then r.handleTimeout now later else r) := by
        intro r
        split
        · exact Keeps.handleTimeout r now later
        · exact .refl r
      have hhandle : ∀ r : Reader, Keeps r (if r.isBit then r else r.setHandle writerId handle) := by
        intro r
        split
        · exact .refl r
        · exact Keeps.setHandle r writerId handle
      exact (htimeout _).trans (hhandle _)
    · exact .refl _

theorem Sound.perform (h : Sound r) (event : Event) : Sound (event.perform r) := by
  cases event with
  | addAssociation writerId handle associated now later =>
    exact (Keeps.addAssociation r writerId handle associated now later).sound h
  | message writerId numbered time now later =>
    exact (Keeps.writerActivity r writerId numbered time now later).sound h
  | tick tv now => exact (Keeps.handleTimeout r tv now).sound h
  | writerBecameDead writerId time =>
    simp only [Event.perform]
    split
    · exact h
    · rename_i info hfind
      exact (Keeps.writerBecameDead hfind time).sound h
  | removeAssociations writers time => exact (Keeps.removeAssociations r writers time).sound h
  | getLivelinessChangedStatus => exact ⟨h.alive, h.notAlive, h.valid⟩
  | setListener present => exact ⟨h.alive, h.notAlive, h.valid⟩
  | delete => exact ⟨h.alive, h.notAlive, h.valid⟩

theorem Unread.perform (hsound : Sound r) (h : Unread r) {event : Event}
    (hunobserved : event.unobserved = true) : Unread (event.perform r) := by
  cases event with
  | addAssociation writerId handle associated now later =>
    exact (Keeps.addAssociation r writerId handle associated now later).unread hsound h
  | message writerId numbered time now later =>
    exact (Keeps.writerActivity r writerId numbered time now later).unread hsound h
  | tick tv now => exact (Keeps.handleTimeout r tv now).unread hsound h
  | writerBecameDead writerId time =>
    simp only [Event.perform]
    split
    · exact h
    · rename_i info hfind
      exact (Keeps.writerBecameDead hfind time).unread hsound h
  | removeAssociations writers time =>
    exact (Keeps.removeAssociations r writers time).unread hsound h
  | getLivelinessChangedStatus => cases hunobserved
  | setListener present =>
    have hpresent : present = false := by simpa [Event.unobserved] using hunobserved
    exact ⟨hpresent, h.alive, h.notAlive⟩
  | delete => exact ⟨h.silent, h.alive, h.notAlive⟩

def performAll (livelinessLeaseDuration : Int) (isExclusiveOwnership isBit hasListener : Bool)
    (events : List Event) : Reader :=
  events.foldl Event.perform
    (Reader.create livelinessLeaseDuration isExclusiveOwnership isBit hasListener)

section

variable (lease : Int) (exclusive bit : Bool)

theorem sound_performAll (hasListener : Bool) (events : List Event) :
    Sound (performAll lease exclusive bit hasListener events) := by
  induction events using List.reverseRecOn with
  | nil => exact ⟨rfl, rfl, fun _ => List.not_mem_nil⟩
  | append_singleton events event ih =>
    rw [performAll, List.foldl_append]
    exact ih.perform event

theorem unread_performAll {events : List Event}
    (hunobserved : ∀ event ∈ events, event.unobserved = true) :
    Unread (performAll lease exclusive bit false events) := by
  induction events using List.reverseRecOn with
  | nil => exact ⟨rfl, rfl, rfl⟩
  | append_singleton events event ih =>
    have hbefore := ih fun e he => hunobserved e (List.mem_append_left _ he)
    rw [performAll, List.foldl_append]
    exact hbefore.perform (sound_performAll lease exclusive bit false events)
      (hunobserved event (by simp))

/-- In every state of a reader the counters are the numbers of its writers that are alive and
dead, so none is negative and no error was reported; without a listener and reads of the
status, the changes are the differences from the counts at the start. -/
theorem counters_match (hasListener : Bool) (events : List Event) :
    let r := performAll lease exclusive bit hasListener events
    r.status.aliveCount = r.writers.countIn isAlive ∧
      r.status.notAliveCount = r.writers.countIn isDead ∧
      0 ≤ r.status.aliveCount ∧ 0 ≤ r.status.notAliveCount ∧
      (∀ count, Effect.invalidCount count ∉ r.effects) ∧
      (hasListener = false ∧ (∀ event ∈ events, event.unobserved = true) →
        r.status.aliveCountChange = r.status.aliveCount - 0 ∧
          r.status.notAliveCountChange = r.status.notAliveCount - 0) := by
  have hsound := sound_performAll lease exclusive bit hasListener events
  refine ⟨hsound.alive, hsound.notAlive, ?_, ?_, hsound.valid, ?_⟩
  · rw [hsound.alive]
    omega
  · rw [hsound.notAlive]
    omega
  · rintro ⟨rfl, hunobserved⟩
    have hunread := unread_performAll lease exclusive bit hunobserved
    refine ⟨?_, ?_⟩
    · rw [Int.sub_zero]
      exact hunread.alive
    · rw [Int.sub_zero]
      exact hunread.notAlive

end

end OpenDDS.Guarantees.LivelinessCounters
