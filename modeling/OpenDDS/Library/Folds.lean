import Mathlib.Data.List.Basic

/-!
# Loops that can fail

A loop over a list that carries a state and may fail. Its invariant speaks of the elements
that were dealt with; each step that keeps it succeeds, and so does the loop.
-/
namespace OpenDDS.Library.Folds

variable {α β ε : Type} {xs : List α} {b : β}

theorem foldlM_pure {m : Type → Type} [Monad m] [LawfulMonad m] {f : β → α → m β}
    (Inv : List α → β → Prop) (base : Inv [] b)
    (step : ∀ done x rest b, xs = done ++ x :: rest → Inv done b →
      ∃ b', f b x = pure b' ∧ Inv (done ++ [x]) b') :
    ∃ b', xs.foldlM f b = pure b' ∧ Inv xs b' := by
  have hrest : ∀ (done rest : List α) (b : β), xs = done ++ rest → Inv done b →
      ∃ b', rest.foldlM f b = pure b' ∧ Inv xs b' := by
    intro done rest
    induction rest generalizing done with
    | nil =>
      intro b hxs hinv
      rw [List.append_nil] at hxs
      exact ⟨b, rfl, hxs ▸ hinv⟩
    | cons x rest ih =>
      intro b hxs hinv
      obtain ⟨b', hstep, hinv'⟩ := step done x rest b hxs hinv
      obtain ⟨last, hlast, hdone⟩ := ih (done ++ [x]) b' (by simpa using hxs) hinv'
      refine ⟨last, ?_, hdone⟩
      rw [List.foldlM_cons, hstep, pure_bind]
      exact hlast
  exact hrest [] xs b rfl base

variable {f : β → α → Except ε β}

theorem foldlM_total (Inv : List α → β → Prop) (base : Inv [] b)
    (step : ∀ done x rest b, xs = done ++ x :: rest → Inv done b →
      ∃ b', f b x = .ok b' ∧ Inv (done ++ [x]) b') : ∃ b', xs.foldlM f b = .ok b' ∧ Inv xs b' :=
  foldlM_pure Inv base step

/-- An element that fails whatever the state. -/
theorem foldlM_error {x : α} (hx : x ∈ xs) (h : ∀ b, ∃ e, f b x = .error e) (b : β) :
    ∃ e, xs.foldlM f b = .error e := by
  induction xs generalizing b with
  | nil => exact absurd hx List.not_mem_nil
  | cons y xs ih =>
    rw [List.foldlM_cons]
    cases hstep : f b y with
    | error e => exact ⟨e, rfl⟩
    | ok next =>
      rcases List.mem_cons.mp hx with rfl | hx
      · obtain ⟨e, he⟩ := h b
        rw [hstep] at he
        cases he
      · exact ih hx next

/-- What each step that succeeds keeps. -/
theorem foldlM_preserves (Inv : β → Prop) (step : ∀ b b', ∀ x ∈ xs, Inv b → f b x = .ok b' → Inv b')
    {b b' : β} (base : Inv b) (h : xs.foldlM f b = .ok b') : Inv b' := by
  induction xs generalizing b with
  | nil =>
    cases h
    exact base
  | cons x xs ih =>
    rw [List.foldlM_cons] at h
    cases hstep : f b x with
    | error e =>
      rw [hstep] at h
      cases h
    | ok next =>
      rw [hstep] at h
      exact ih (fun b b' y hy => step b b' y (List.mem_cons_of_mem x hy))
        (step b next x List.mem_cons_self base hstep) h

theorem bind_eq_ok {γ : Type} {x : Except ε α} {f : α → Except ε γ} {r : γ} (h : x >>= f = .ok r) :
    ∃ a, x = .ok a ∧ f a = .ok r := by
  cases x with
  | error e => cases h
  | ok a => exact ⟨a, rfl, h⟩

theorem map_eq_ok {γ : Type} {f : α → β} {x : Except γ α} {b : β} (h : x.map f = .ok b) :
    ∃ a, x = .ok a ∧ f a = b := by
  cases x with
  | error fault => cases h
  | ok a => exact ⟨a, rfl, Except.ok.inj h⟩

theorem toOption_eq_some {γ : Type} {x : Except γ α} {a : α} (h : x.toOption = some a) :
    x = .ok a := by
  cases x with
  | error fault => cases h
  | ok b => exact congrArg Except.ok (Option.some.inj h)

end OpenDDS.Library.Folds
