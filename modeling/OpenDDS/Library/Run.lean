import Mathlib.Data.List.Basic

/-!
# Runs of a labelled transition relation

`Run start trans labels s` says that `s` is reached from `start` by the transitions
named in `labels`, oldest first. Every safety result of this development is an
invariant of such a run: it is shown once for the start and once for a single
transition, and `Run.invariant` does the induction. `Run.history` is the same rule
for invariants that mention the labels seen so far.
-/
namespace OpenDDS.Library

variable {State Label : Type}

inductive Run (start : State) (trans : State → Label → State → Prop) :
    List Label → State → Prop
  | start : Run start trans [] start
  | next {labels : List Label} {s after : State} {label : Label}
      (before : Run start trans labels s) (h : trans s label after) :
      Run start trans (labels ++ [label]) after

variable {start : State} {trans : State → Label → State → Prop}

/-- What holds initially and is kept by each transition holds after every run. -/
theorem Run.invariant (Inv : State → Prop) (base : Inv start)
    (step : ∀ s label after, Inv s → trans s label after → Inv after)
    {labels : List Label} {s : State} (run : Run start trans labels s) : Inv s := by
  induction run with
  | start => exact base
  | next _ h ih => exact step _ _ _ ih h

/-- The invariant rule with the history of the run as an argument. -/
theorem Run.history (Inv : List Label → State → Prop) (base : Inv [] start)
    (step : ∀ labels s label after, Inv labels s → trans s label after →
      Inv (labels ++ [label]) after)
    {labels : List Label} {s : State} (run : Run start trans labels s) : Inv labels s := by
  induction run with
  | start => exact base
  | next _ h ih => exact step _ _ _ _ ih h

/-- A run of transitions that are also of another kind. -/
theorem Run.imp {trans' : State → Label → State → Prop}
    (himp : ∀ s label after, trans s label after → trans' s label after) {labels : List Label}
    {s : State} (run : Run start trans labels s) : Run start trans' labels s := by
  induction run with
  | start => exact .start
  | next _ h ih => exact ih.next (himp _ _ _ h)

/-- A run whose transitions are computed one after another. -/
theorem Run.follow {step : State → Label → Option State}
    (htrans : ∀ s label after, step s label = some after → trans s label after)
    {labels done : List Label} {s after : State} (run : Run start trans done s)
    (h : labels.foldlM step s = some after) : Run start trans (done ++ labels) after := by
  induction labels generalizing s done with
  | nil =>
    rw [List.append_nil]
    cases h
    exact run
  | cons label labels ih =>
    obtain ⟨next, hnext, hrest⟩ := Option.bind_eq_some_iff.mp h
    have hlabels := ih (run.next (htrans s label next hnext)) hrest
    rwa [List.append_assoc] at hlabels

end OpenDDS.Library
