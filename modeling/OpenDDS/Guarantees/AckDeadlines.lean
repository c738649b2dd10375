import OpenDDS.Source.WriterInfo
import Mathlib.Data.List.Induction

/-!
# The pending acknowledgement deadlines of a writer

The list stays in ascending order of the sequence numbers, so `clear_acks` removes what it
is meant to. A request that is not above the first pending one is recorded, and every other
request stays as it is. A request above the first pending one is compared with that one
only and then forgotten.
-/
namespace OpenDDS.Guarantees.AckDeadlines

open Source Source.WriterInfo
open Library.RangeList (Range)

/-- The calls on a `WriterInfo` that touch its deadlines; the reception of samples between
them changes `ack_sequence_` only. -/
inductive Call where
  | received (seqs : List Range)
  | ackDeadline (sequence deadline : Int)
  | clearAcks (sequence : Int)
  | shouldAck (now : Int)

def Call.perform (w : WriterInfo) : Call → WriterInfo
  | received seqs => { w with ackSequence := seqs }
  | ackDeadline sequence deadline => w.ackDeadline sequence deadline
  | clearAcks sequence => w.clearAcks sequence
  | shouldAck now => (w.shouldAck now).2

def performAll (writerId : Nat) (calls : List Call) : WriterInfo :=
  calls.foldl Call.perform (create writerId)

def Ascending (entries : List (Int × Int)) : Prop := entries.Pairwise fun e e' => e.1 < e'.1

/-- The request is pending afterwards, and those for other numbers are as before. -/
structure Keeps (w : WriterInfo) (sequence deadline : Int) : Prop where
  recorded : ∃ later, deadline ≤ later ∧
    (sequence, later) ∈ (w.ackDeadline sequence deadline).ackDeadlines
  others : ∀ e, e.1 ≠ sequence →
    (e ∈ (w.ackDeadline sequence deadline).ackDeadlines ↔ e ∈ w.ackDeadlines)

/-- No pending number is below the requested one, or the request is pending already. -/
def Reached (w : WriterInfo) (sequence deadline : Int) : Prop :=
  (∀ e ∈ w.ackDeadlines.head?, sequence ≤ e.1) ∨
    ∃ later, deadline ≤ later ∧ (sequence, later) ∈ w.ackDeadlines

variable {entries : List (Int × Int)} {w : WriterInfo} {sequence deadline now : Int}

/-- What `ack_deadline` does: it puts an entry in front, replaces the first one, or nothing. -/
theorem ackDeadline_cases (w : WriterInfo) (sequence deadline : Int) :
    (∃ later, (w.ackDeadline sequence deadline).ackDeadlines = (sequence, later) :: w.ackDeadlines ∧
      ∀ e ∈ w.ackDeadlines.head?, sequence < e.1) ∨
    (∃ first rest, w.ackDeadlines = (sequence, first) :: rest ∧
      (w.ackDeadline sequence deadline).ackDeadlines = (sequence, max first deadline) :: rest) ∨
    (w.ackDeadline sequence deadline = w ∧ ∃ e ∈ w.ackDeadlines.head?, e.1 < sequence) := by
  cases hcons : w.ackDeadlines with
  | nil =>
    left
    refine ⟨deadline, ?_, by simp⟩
    simp [WriterInfo.ackDeadline, hcons]
  | cons current rest =>
    rcases lt_trichotomy sequence current.1 with hlt | heq | hgt
    · left
      refine ⟨deadline, ?_, by simpa using hlt⟩
      simp [WriterInfo.ackDeadline, hcons, hlt]
    · right
      left
      refine ⟨current.2, rest, by rw [heq], ?_⟩
      by_cases hlater : current.2 < deadline
      · simp [WriterInfo.ackDeadline, hcons, heq, hlater, max_eq_right hlater.le]
      · simp [WriterInfo.ackDeadline, hcons, heq, hlater, max_eq_left (not_lt.mp hlater)]
    · right
      right
      refine ⟨?_, current, by simp, hgt⟩
      have hle : ¬ sequence < current.1 := by omega
      have hne : ¬ sequence = current.1 := by omega
      simp [WriterInfo.ackDeadline, hcons, hle, hne]

theorem keeps_iff : Keeps w sequence deadline ↔ Reached w sequence deadline := by
  rcases ackDeadline_cases w sequence deadline with
    ⟨later, heq, hbelow⟩ | ⟨first, rest, hcons, heq⟩ | ⟨heq, e, he, habove⟩
  · have hreached : Reached w sequence deadline := Or.inl fun e he => (hbelow e he).le
    refine ⟨fun _ => hreached, fun _ => ⟨?_, ?_⟩⟩
    · exact ackDeadline_records deadline fun e he => (hbelow e he).le
    · intro e hne
      rw [heq, List.mem_cons]
      exact or_iff_right fun hsame => hne (by rw [hsame])
  · have hreached : Reached w sequence deadline := Or.inl (by simp [hcons])
    refine ⟨fun _ => hreached, fun _ => ⟨⟨max first deadline, le_max_right _ _, ?_⟩, ?_⟩⟩
    · rw [heq]
      exact List.mem_cons_self
    · intro e hne
      rw [heq, hcons, List.mem_cons, List.mem_cons, or_iff_right, or_iff_right]
      · exact fun hsame => hne (by rw [hsame])
      · exact fun hsame => hne (by rw [hsame])
  · constructor
    · intro hkeeps
      have hrecorded := hkeeps.recorded
      rw [heq] at hrecorded
      exact .inr hrecorded
    · rintro (hfirst | hpending)
      · have hle := hfirst e he
        omega
      · refine ⟨by rwa [heq], fun e _ => by rw [heq]⟩

theorem Ascending.ackDeadline (h : Ascending w.ackDeadlines) (sequence deadline : Int) :
    Ascending (w.ackDeadline sequence deadline).ackDeadlines := by
  rcases ackDeadline_cases w sequence deadline with
    ⟨later, heq, hbelow⟩ | ⟨first, rest, hcons, heq⟩ | ⟨heq, -⟩
  · rw [heq]
    refine List.pairwise_cons.mpr ⟨?_, h⟩
    intro e he
    cases hcons : w.ackDeadlines with
    | nil =>
      rw [hcons] at he
      cases he
    | cons current rest =>
      have hfirst : sequence < current.1 := hbelow current (by simp [hcons])
      rw [hcons] at h he
      rcases List.mem_cons.mp he with rfl | hrest
      · exact hfirst
      · exact hfirst.trans ((List.pairwise_cons.mp h).1 e hrest)
  · rw [hcons] at h
    rw [heq]
    exact List.pairwise_cons.mpr (List.pairwise_cons.mp h)
  · rwa [heq]

theorem dueAck_sublist (acked : List Range) (now : Int) (entries : List (Int × Int)) :
    ((dueAck acked now entries).2).Sublist entries := by
  induction entries with
  | nil => exact List.Sublist.refl _
  | cons e rest ih =>
    rw [dueAck]
    split
    · exact ih.cons e
    · split
      · exact List.Sublist.refl _
      · exact ih.cons_cons e

theorem Ascending.perform (h : Ascending w.ackDeadlines) (call : Call) :
    Ascending (call.perform w).ackDeadlines := by
  cases call with
  | received seqs => exact h
  | ackDeadline sequence deadline => exact h.ackDeadline sequence deadline
  | clearAcks sequence => exact h.sublist (List.dropWhile_sublist _)
  | shouldAck now => exact h.sublist (dueAck_sublist _ _ _)

theorem ascending_performAll (writerId : Nat) (calls : List Call) :
    Ascending (performAll writerId calls).ackDeadlines := by
  induction calls using List.reverseRecOn with
  | nil => exact List.Pairwise.nil
  | append_singleton calls call ih =>
    rw [performAll, List.foldl_append]
    exact ih.perform call

theorem clearAcks_eq (h : Ascending w.ackDeadlines) (sequence : Int) :
    (w.clearAcks sequence).ackDeadlines = w.ackDeadlines.filter fun e => sequence < e.1 := by
  have hdrop : ∀ entries : List (Int × Int), Ascending entries →
      entries.dropWhile (fun e => e.1 ≤ sequence) = entries.filter fun e => sequence < e.1 := by
    intro entries hasc
    induction entries with
    | nil => rfl
    | cons e rest ih =>
      obtain ⟨hfirst, hrest⟩ := List.pairwise_cons.mp hasc
      by_cases hle : e.1 ≤ sequence
      · rw [List.dropWhile_cons_of_pos (by simpa using hle),
          List.filter_cons_of_neg (by simpa using hle), ih hrest]
      · rw [List.dropWhile_cons_of_neg (by simpa using hle), eq_comm, List.filter_eq_self]
        intro e' he'
        rcases List.mem_cons.mp he' with rfl | hlater
        · simpa using hle
        · have := hfirst e' hlater
          simp only [decide_eq_true_eq]
          omega
  exact hdrop _ h

/-- In every state of a writer, the deadlines are ascending, `clear_acks` removes exactly
those up to its number, `should_ack` removes only what has expired, and `ack_deadline`
records its request if and only if it gets as far as the place where it belongs. -/
theorem deadlines_kept (writerId : Nat) (calls : List Call) :
    Ascending (performAll writerId calls).ackDeadlines ∧
      (∀ sequence deadline, Keeps (performAll writerId calls) sequence deadline ↔
        Reached (performAll writerId calls) sequence deadline) ∧
      (∀ sequence, ((performAll writerId calls).clearAcks sequence).ackDeadlines =
        (performAll writerId calls).ackDeadlines.filter fun e => sequence < e.1) ∧
      ∀ now, ∀ e ∈ (performAll writerId calls).ackDeadlines, now ≤ e.2 →
        e ∈ ((performAll writerId calls).shouldAck now).2.ackDeadlines := by
  have hasc := ascending_performAll writerId calls
  refine ⟨hasc, fun _ _ => keeps_iff, clearAcks_eq hasc, ?_⟩
  intro now e he hlive
  exact mem_dueAck he hlive

/-- A request for 2 while one for 1 is pending is lost. -/
theorem later_request_lost :
    (performAll 7 [.ackDeadline 1 10]).ackDeadlines = [(1, 10)] ∧
      ((performAll 7 [.ackDeadline 1 10]).ackDeadline 2 20).ackDeadlines = [(1, 10)] ∧
      ¬ Keeps (performAll 7 [.ackDeadline 1 10]) 2 20 := by
  refine ⟨by decide, by decide, ?_⟩
  rintro ⟨⟨later, -, hmem⟩, -⟩
  have hone : (2, later) = ((1, 10) : Int × Int) := List.mem_singleton.mp hmem
  cases hone

end OpenDDS.Guarantees.AckDeadlines
