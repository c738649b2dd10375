import OpenDDS.Library.Run
import OpenDDS.Source.InstanceState

/-!
# The lifecycle of an instance

A live instance has writers, and the generation counts are the numbers of revivals. The
view state of an instance is renewed by the sample that revives it. A registration or a
liveliness message can revive it as well, and then the first sample of the new generation
finds a live instance: the view state of the generation before stays.
-/
namespace OpenDDS.Guarantees.InstanceLifecycle
open Library Source

inductive Event where
  | dataWasReceived (writer : Nat)
  | lively (writer : Nat)
  | disposeWasReceived (writer : Nat)
  | unregisterWasReceived (writer : Nat)
  | writerBecameDead (writer : Nat)
  | accessed
  deriving DecidableEq, Repr

def perform (qos : ReaderDataLifecycle) (s : InstanceState) : Event → InstanceState
  | .dataWasReceived writer => s.dataWasReceived writer
  | .lively writer => s.lively writer
  | .disposeWasReceived writer => (s.disposeWasReceived qos false writer).2
  | .unregisterWasReceived writer => (s.unregisterWasReceived qos writer).2
  | .writerBecameDead writer => s.writerBecameDead qos writer
  | .accessed => s.accessed

def NotAlive (kind : InstanceStateKind) : Prop :=
  kind = .notAliveDisposed ∨ kind = .notAliveNoWriters

instance (kind : InstanceStateKind) : Decidable (NotAlive kind) :=
  inferInstanceAs (Decidable (_ ∨ _))

/-- An instance with what has been observed of it: the revivals so far, whether a sample
was received since it was created or last left a NOT_ALIVE state, and whether it was
accessed since the first such sample. -/
structure Observed where
  state : InstanceState
  disposedRevivals : Nat
  noWritersRevivals : Nat
  sampled : Bool
  accessed : Bool

def Observed.start (handle : Nat) : Observed := ⟨.create handle false, 0, 0, false, false⟩

def Observed.next (qos : ReaderDataLifecycle) (o : Observed) (e : Event) : Observed :=
  let after := perform qos o.state e
  let revived := NotAlive o.state.instanceState ∧ ¬ NotAlive after.instanceState
  let sampled := o.sampled && !decide revived
  { state := after
    disposedRevivals :=
      if o.state.instanceState = .notAliveDisposed ∧ after.instanceState = .alive then
        o.disposedRevivals + 1
      else o.disposedRevivals
    noWritersRevivals :=
      if o.state.instanceState = .notAliveNoWriters ∧ after.instanceState = .alive then
        o.noWritersRevivals + 1
      else o.noWritersRevivals
    sampled := sampled || e matches .dataWasReceived _
    accessed := sampled && (o.accessed || e matches .accessed) }

def Happens (qos : ReaderDataLifecycle) (o : Observed) (e : Event) (o' : Observed) : Prop :=
  o' = o.next qos e

structure Counted (o : Observed) : Prop where
  shared : o.state.exclusive = false
  writers : o.state.instanceState = .alive → o.state.writers.Nonempty
  disposed : o.state.disposedGenerationCount = o.disposedRevivals
  noWriters : o.state.noWritersGenerationCount = o.noWritersRevivals

/-- The view state right after a sample. -/
def FreshView (o : Observed) : Event → Prop
  | .dataWasReceived _ => o.accessed = false → o.state.viewState = .new
  | _ => True

/-- The condition: the first sample of a generation does not find the instance revived
with the view state NOT_NEW. -/
def RevivesNew (o : Observed) : Event → Prop
  | .dataWasReceived _ => o.sampled = true ∨ NotAlive o.state.instanceState ∨
      o.state.viewState ≠ .notNew
  | _ => True

def HappensNew (qos : ReaderDataLifecycle) (o : Observed) (e : Event) (o' : Observed) : Prop :=
  Happens qos o e o' ∧ RevivesNew o e

variable {qos : ReaderDataLifecycle} {o o' : Observed} {e : Event} {s s' : InstanceState}
  {writer : Nat}

/-- What a disposal, an unregistration and the death of a writer have in common: the
instance ends, or it stays as it was with a writer left. -/
structure Retires (s s' : InstanceState) : Prop where
  view : s'.viewState = s.viewState
  disposed : s'.disposedGenerationCount = s.disposedGenerationCount
  noWriters : s'.noWritersGenerationCount = s.noWritersGenerationCount
  exclusive : s'.exclusive = s.exclusive
  kind : s'.instanceState = s.instanceState ∧ (s.instanceState = .alive → s'.writers.Nonempty) ∨
    s.instanceState = .alive ∧ NotAlive s'.instanceState

theorem withdraw_retires (qos : ReaderDataLifecycle) (writer : Nat) :
    Retires s (s.withdraw qos writer).2 := by
  rcases s.withdraw_cases qos writer with ⟨heq, -, hkept⟩ | ⟨-, halive, -, pending, timer, heq⟩
  · rw [heq]
    have hleft : s.instanceState = .alive → (s.writers.erase writer).Nonempty := by
      intro halive
      apply Finset.nonempty_of_ne_empty
      intro hempty
      exact hkept ⟨hempty, halive⟩
    exact ⟨rfl, rfl, rfl, rfl, .inl ⟨rfl, hleft⟩⟩
  · rw [heq]
    exact ⟨rfl, rfl, rfl, rfl, .inr ⟨halive, .inr rfl⟩⟩

theorem disposeWasReceived_retires (shared : s.exclusive = false) (qos : ReaderDataLifecycle)
    (writer : Nat) : Retires s (s.disposeWasReceived qos false writer).2 := by
  rcases s.disposeWasReceived_cases qos writer false with
    ⟨heq, -, hkept⟩ | ⟨-, halive, pending, timer, heq⟩
  · rw [heq]
    have hleft : s.instanceState = .alive → (s.writers.erase writer).Nonempty := by
      intro halive
      exact absurd ⟨halive, .inl shared⟩ hkept
    exact ⟨rfl, rfl, rfl, rfl, .inl ⟨rfl, hleft⟩⟩
  · rw [heq]
    exact ⟨rfl, rfl, rfl, rfl, .inr ⟨halive, .inl rfl⟩⟩

theorem Retires.not_revived (h : Retires s s') {kind : InstanceStateKind} (dead : NotAlive kind) :
    ¬ (s.instanceState = kind ∧ s'.instanceState = .alive) := by
  rintro ⟨rfl, halive⟩
  rcases h.kind with ⟨hsame, -⟩ | ⟨hbefore, -⟩
  · rw [← hsame, halive] at dead
    rcases dead with h | h <;> cases h
  · rw [hbefore] at dead
    rcases dead with h | h <;> cases h

theorem Retires.not_left (h : Retires s s') :
    ¬ (NotAlive s.instanceState ∧ ¬ NotAlive s'.instanceState) := by
  rintro ⟨hbefore, hafter⟩
  rcases h.kind with ⟨hsame, -⟩ | ⟨-, hdead⟩
  · exact hafter (hsame ▸ hbefore)
  · exact hafter hdead

theorem perform_cases (qos : ReaderDataLifecycle) (e : Event) (shared : o.state.exclusive = false) :
    Retires o.state (perform qos o.state e) ∧ (e matches .dataWasReceived _) = false ∧
        (e matches .accessed) = false ∨
      (∃ writer, e = .dataWasReceived writer) ∨ (∃ writer, e = .lively writer) ∨
      e = .accessed := by
  cases e with
  | dataWasReceived writer => exact .inr (.inl ⟨writer, rfl⟩)
  | lively writer => exact .inr (.inr (.inl ⟨writer, rfl⟩))
  | disposeWasReceived writer =>
    exact .inl ⟨disposeWasReceived_retires shared qos writer, rfl, rfl⟩
  | unregisterWasReceived writer => exact .inl ⟨withdraw_retires qos writer, rfl, rfl⟩
  | writerBecameDead writer => exact .inl ⟨withdraw_retires qos writer, rfl, rfl⟩
  | accessed => exact .inr (.inr (.inr rfl))

theorem Counted.start (handle : Nat) : Counted (.start handle) where
  shared := rfl
  writers halive := nomatch halive
  disposed := rfl
  noWriters := rfl

theorem Counted.next (h : Counted o) : Counted (o.next qos e) := by
  rcases perform_cases qos e h.shared with
    ⟨hretires, -, -⟩ | ⟨writer, rfl⟩ | ⟨writer, rfl⟩ | rfl
  · constructor
    · exact hretires.exclusive.trans h.shared
    · intro halive
      rcases hretires.kind with ⟨hsame, hleft⟩ | ⟨-, hdead⟩
      · exact hleft (hsame ▸ halive)
      · rcases hdead with hdead | hdead <;> cases hdead.symm.trans halive
    · have hkept := hretires.not_revived (.inl rfl)
      simp only [Observed.next, hkept, if_false]
      exact hretires.disposed.trans h.disposed
    · have hkept := hretires.not_revived (.inr rfl)
      simp only [Observed.next, hkept, if_false]
      exact hretires.noWriters.trans h.noWriters
  · constructor
    · exact h.shared
    · intro _
      exact Finset.insert_nonempty writer _
    · simp [Observed.next, perform, InstanceState.dataWasReceived, h.disposed]
    · simp [Observed.next, perform, InstanceState.dataWasReceived, h.noWriters]
  · by_cases hdead : o.state.instanceState = .notAliveNoWriters
    · constructor
      · simpa [Observed.next, perform, InstanceState.lively, InstanceState.cancelRelease, hdead]
          using h.shared
      · simp [Observed.next, perform, InstanceState.lively, hdead]
      · simpa [Observed.next, perform, InstanceState.lively, InstanceState.cancelRelease, hdead]
          using h.disposed
      · simp [Observed.next, perform, InstanceState.lively, hdead, h.noWriters]
    · have hsame : ¬ (o.state.instanceState = .notAliveDisposed ∧ o.state.instanceState = .alive) := by
        rintro ⟨h₁, h₂⟩
        cases h₁.symm.trans h₂
      constructor
      · simpa [Observed.next, perform, InstanceState.lively, hdead] using h.shared
      · simp [Observed.next, perform, InstanceState.lively, hdead]
      · simpa [Observed.next, perform, InstanceState.lively, hdead, hsame] using h.disposed
      · simpa [Observed.next, perform, InstanceState.lively, hdead] using h.noWriters
  · have hsame : ∀ kind, NotAlive kind →
        ¬ (o.state.instanceState = kind ∧ o.state.instanceState = .alive) := by
      rintro kind hkind ⟨rfl, h₂⟩
      rw [h₂] at hkind
      rcases hkind with hkind | hkind <;> cases hkind
    constructor
    · exact h.shared
    · exact h.writers
    · simpa [Observed.next, perform, InstanceState.accessed, hsame _ (.inl rfl)] using h.disposed
    · simpa [Observed.next, perform, InstanceState.accessed, hsame _ (.inr rfl)] using h.noWriters

/-- Between two revivals, the view state of a generation with a sample is NEW until it is
accessed. -/
def Renewed (o : Observed) : Prop :=
  o.sampled = true → o.accessed = false → o.state.viewState = .new

theorem receivedView_notAlive {view : ViewStateKind} {kind : InstanceStateKind}
    (dead : NotAlive kind) : InstanceState.receivedView view kind = .new := by
  have hdead : kind = .notAliveDisposed ∨ kind = .notAliveNoWriters := dead
  cases view <;> simp [InstanceState.receivedView, hdead]

theorem receivedView_ne {view : ViewStateKind} {kind : InstanceStateKind}
    (fresh : view ≠ .notNew) : InstanceState.receivedView view kind = .new := by
  cases view with
  | notNew => exact absurd rfl fresh
  | new => rfl
  | unset => rfl

theorem Renewed.next (hcounted : Counted o) (h : Renewed o) (cond : RevivesNew o e) :
    Renewed (o.next qos e) := by
  rcases perform_cases qos e hcounted.shared with
    ⟨hretires, hdata, haccess⟩ | ⟨writer, rfl⟩ | ⟨writer, rfl⟩ | rfl
  · intro hsampled haccessed
    have hkept := hretires.not_left
    simp only [Observed.next, hkept, hdata, haccess, decide_false, Bool.not_false, Bool.and_true,
      Bool.or_false] at hsampled haccessed
    rw [hsampled, Bool.true_and] at haccessed
    exact hretires.view.trans (h hsampled haccessed)
  · intro _ haccessed
    change InstanceState.receivedView o.state.viewState o.state.instanceState = .new
    by_cases hdead : NotAlive o.state.instanceState
    · exact receivedView_notAlive hdead
    · simp only [Observed.next, hdead, false_and, decide_false, Bool.not_false, Bool.and_true,
        Bool.or_false] at haccessed
      by_cases hsampled : o.sampled = true
      · rw [hsampled, Bool.true_and] at haccessed
        rw [h hsampled haccessed]
        rfl
      · have hview : o.state.viewState ≠ .notNew := by
          rcases cond with hcond | hcond | hcond
          · exact absurd hcond hsampled
          · exact absurd hcond hdead
          · exact hcond
        exact receivedView_ne hview
  · intro hsampled haccessed
    by_cases hdead : o.state.instanceState = .notAliveNoWriters
    · simp [Observed.next, perform, InstanceState.lively, hdead, NotAlive] at hsampled
    · have hkept : ¬ (NotAlive o.state.instanceState ∧ ¬ NotAlive o.state.instanceState) := by
        rintro ⟨h₁, h₂⟩
        exact h₂ h₁
      simp only [Observed.next, perform, InstanceState.lively, hdead, if_false, hkept, decide_false,
        Bool.not_false, Bool.and_true, Bool.or_false] at hsampled haccessed ⊢
      rw [hsampled, Bool.true_and] at haccessed
      exact h hsampled haccessed
  · intro hsampled haccessed
    simp only [Observed.next, Bool.or_false, Bool.or_true, Bool.and_true] at hsampled haccessed
    rw [hsampled] at haccessed
    cases haccessed

theorem Renewed.start (handle : Nat) : Renewed (.start handle) := by
  intro hsampled
  cases hsampled

theorem Renewed.freshView (h : Renewed (o.next qos e)) : FreshView (o.next qos e) e := by
  cases e with
  | dataWasReceived writer =>
    apply h
    simp [Observed.next]
  | _ => trivial

theorem FreshView.revivesNew (h : FreshView (o.next qos e) e) : RevivesNew o e := by
  cases e with
  | dataWasReceived writer =>
    by_cases hsampled : o.sampled = true
    · exact .inl hsampled
    by_cases hdead : NotAlive o.state.instanceState
    · exact .inr (.inl hdead)
    have hview : InstanceState.receivedView o.state.viewState o.state.instanceState = .new := by
      apply h
      simp [Observed.next, hsampled]
    refine .inr (.inr ?_)
    intro hnot
    have hlive : ¬ (o.state.instanceState = .notAliveDisposed ∨
        o.state.instanceState = .notAliveNoWriters) := hdead
    rw [hnot, InstanceState.receivedView, if_neg hlive] at hview
    cases hview
  | _ => trivial

/-- In every run, a live instance has writers and the counts are those of the revivals. As
long as the first sample of each generation finds the instance not yet revived, or its view
state not NOT_NEW, the view state is NEW after every sample of a generation that was not
accessed since its first one; the first sample for which this is not so breaks the law. -/
theorem instance_lifecycle (qos : ReaderDataLifecycle) (handle : Nat) :
    (∀ es o, Run (.start handle) (Happens qos) es o → Counted o) ∧
      ∀ es e o o', Run (.start handle) (HappensNew qos) es o → Happens qos o e o' →
        (FreshView o' e ↔ RevivesNew o e) := by
  constructor
  · intro es o run
    apply run.invariant Counted (Counted.start handle)
    rintro o e o' h rfl
    exact h.next
  · intro es e o o' run step
    have hinv : Counted o ∧ Renewed o := by
      apply run.invariant (fun o => Counted o ∧ Renewed o) ⟨Counted.start handle, Renewed.start handle⟩
      rintro o e o' ⟨hcounted, h⟩ ⟨rfl, cond⟩
      exact ⟨hcounted.next, h.next hcounted cond⟩
    cases step
    constructor
    · exact FreshView.revivesNew
    · intro cond
      exact (hinv.2.next hinv.1 cond).freshView

section

def observeAll (qos : ReaderDataLifecycle) (handle : Nat) (es : List Event) : Observed :=
  es.foldl (Observed.next qos) (.start handle)

theorem observeAll_run (trans : Observed → Event → Observed → Prop) (handle : Nat) (es : List Event)
    (steps : ∀ before e after, es = before ++ e :: after →
      trans (observeAll qos handle before) e ((observeAll qos handle before).next qos e)) :
    Run (.start handle) trans es (observeAll qos handle es) := by
  induction es using List.reverseRecOn with
  | nil => exact .start
  | append_singleton es e ih =>
    have hbefore : Run (.start handle) trans es (observeAll qos handle es) := by
      apply ih
      intro before e' after heq
      apply steps before e' (after ++ [e])
      rw [heq]
      simp
    have hlast := steps es e [] rfl
    have hfold : observeAll qos handle (es ++ [e]) = (observeAll qos handle es).next qos e :=
      List.foldl_concat ..
    rw [hfold]
    exact .next hbefore hlast

def keepsAll : ReaderDataLifecycle :=
  ⟨QosHelper.durationInfinite, QosHelper.durationInfinite⟩

/-- The instance is read, unregistered and registered again before its next sample. -/
def registeredAgain : List Event :=
  [.dataWasReceived 1, .accessed, .unregisterWasReceived 1, .lively 1]

theorem view_state_kept_by_registration :
    ∃ o, Run (.start 1) (Happens keepsAll) registeredAgain o ∧
      ∃ o', Happens keepsAll o (.dataWasReceived 1) o' ∧ ¬ FreshView o' (.dataWasReceived 1) := by
  refine ⟨observeAll keepsAll 1 registeredAgain, ?_, _, rfl, ?_⟩
  · apply observeAll_run
    intro before e after _
    rfl
  · intro h
    have hview := h rfl
    revert hview
    decide

/-- The same instance, revived by its next sample. -/
theorem instance_lifecycle_sampled_again :
    Counted (observeAll keepsAll 1 [.dataWasReceived 1, .accessed, .unregisterWasReceived 1]) ∧
      FreshView (observeAll keepsAll 1
          [.dataWasReceived 1, .accessed, .unregisterWasReceived 1, .dataWasReceived 1])
        (.dataWasReceived 1) := by
  constructor
  · apply (instance_lifecycle keepsAll 1).1 [.dataWasReceived 1, .accessed, .unregisterWasReceived 1]
    apply observeAll_run
    intro before e after _
    rfl
  · have hfirst : RevivesNew (.start 1) (.dataWasReceived 1) := Or.inr (.inr (by decide))
    have hrun : Run (.start 1) (HappensNew keepsAll)
        [.dataWasReceived 1, .accessed, .unregisterWasReceived 1]
        (observeAll keepsAll 1 [.dataWasReceived 1, .accessed, .unregisterWasReceived 1]) :=
      .next (.next (.next .start ⟨rfl, hfirst⟩) ⟨rfl, trivial⟩) ⟨rfl, trivial⟩
    apply ((instance_lifecycle keepsAll 1).2 _ (.dataWasReceived 1) _ _ hrun rfl).mpr
    exact .inr (.inl (by decide))

end

end OpenDDS.Guarantees.InstanceLifecycle
