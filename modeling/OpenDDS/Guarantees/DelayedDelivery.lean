import OpenDDS.Source.DelayedNotifications

/-!
The delayed notifications that are sent are those that match. Taking them out of the two arrays
and moving the others together is the filter of the list that the arrays hold.
-/
namespace OpenDDS.Guarantees.DelayedDelivery
open Source.SendStrategy Source.DelayedNotifications

variable {ε : Type} {d : Delayed ε} {select : ε → Bool} {entries : List (ε × SendMode)} {i n gap : Nat}

def cell (d : Delayed ε) (i : Nat) : Option ε × SendMode := (d.queue i, d.modes i)

/-- The `n` cells from `i` on. -/
def slice (d : Delayed ε) (i n : Nat) : List (Option ε × SendMode) := (List.range' i n).map (cell d)

/-- The cell of an entry, and what `collect` makes of it. -/
def filled (entry : ε × SendMode) : Option ε × SendMode := (some entry.1, entry.2)

def marked (select : ε → Bool) (entry : ε × SendMode) : Option ε × SendMode :=
  if select entry.1 then (none, .notSet) else filled entry

/-- The arrays hold a list of notifications. -/
def Holds (d : Delayed ε) (entries : List (ε × SendMode)) : Prop :=
  d.num = entries.length ∧ slice d 0 d.num = entries.map filled

theorem slice_succ (d : Delayed ε) (i n : Nat) :
    slice d i (n + 1) = cell d i :: slice d (i + 1) n := by
  rw [slice, List.range'_succ, List.map_cons, slice]

theorem slice_congr {d' : Delayed ε} (h : ∀ j, i ≤ j → cell d' j = cell d j) :
    slice d' i n = slice d i n :=
  List.map_congr_left fun j hj => h j (List.mem_range'_1.mp hj).1

theorem cell_of_ne {d' : Delayed ε} {k j : Nat} {sample : Option ε} {mode : SendMode}
    (hqueue : d'.queue = Function.update d.queue k sample)
    (hmodes : d'.modes = Function.update d.modes k mode) (h : j ≠ k) : cell d' j = cell d j := by
  rw [cell, hqueue, hmodes, Function.update_of_ne h, Function.update_of_ne h, cell]

theorem add_holds (mode : SendMode) (element : ε) (h : Holds d entries) :
    Holds (addDelayedNotification mode element d) (entries ++ [(element, mode)]) := by
  obtain ⟨hnum, hslice⟩ := h
  refine ⟨by simp [addDelayedNotification, hnum], ?_⟩
  have hfront : slice (addDelayedNotification mode element d) 0 d.num = slice d 0 d.num :=
    List.map_congr_left fun j hj =>
      cell_of_ne rfl rfl (by have := (List.mem_range'_1.mp hj).2; omega)
  rw [show (addDelayedNotification mode element d).num = d.num + 1 from rfl, slice,
    List.range'_concat, List.map_append, ← slice, hfront, hslice, List.map_append]
  simp [cell, filled, addDelayedNotification]

variable (select) in
theorem collect_spec (h : slice d i entries.length = entries.map filled) :
    ∃ after, collect select entries.length i d = some (entries.filter fun s => select s.1, after) ∧
      after.num = d.num ∧ slice after i entries.length = entries.map (marked select) ∧
      ∀ j < i, cell after j = cell d j := by
  induction entries generalizing d i with
  | nil => exact ⟨d, rfl, rfl, rfl, fun _ _ => rfl⟩
  | cons entry rest ih =>
    rw [List.length_cons, slice_succ, List.map_cons, List.cons.injEq] at h
    obtain ⟨hcell, hrest⟩ := h
    obtain ⟨hqueue, hmode⟩ := Prod.mk.inj hcell
    rw [List.length_cons, collect, hqueue]
    cases hselect : select entry.1 with
    | false =>
      obtain ⟨after, hcollect, hnum, hslice, hkept⟩ := ih hrest
      refine ⟨after, by simpa [hselect] using hcollect, hnum, ?_, fun j hj => hkept j (by omega)⟩
      rw [slice_succ, hkept i (by omega), hslice, hcell]
      simp [marked, hselect]
    | true =>
      have hcleared : ∀ j, j ≠ i → cell (d.clear i) j = cell d j := fun j => cell_of_ne rfl rfl
      obtain ⟨after, hcollect, hnum, hslice, hkept⟩ := ih (d := d.clear i)
        ((slice_congr fun j hj => hcleared j (by omega)).trans hrest)
      refine ⟨after, ?_, hnum, ?_, fun j hj => (hkept j (by omega)).trans (hcleared j (by omega))⟩
      · simp [hselect, hcollect, hmode]
      · rw [slice_succ, hkept i (by omega), hslice]
        simp [marked, hselect, cell, Delayed.clear]

theorem compact_spec (hgap : gap ≤ i) (h : slice d i entries.length = entries.map (marked select)) :
    let kept := entries.filter fun s => !select s.1
    let after := compact entries.length i gap d
    slice after (i - gap) kept.length = kept.map filled ∧
      after.num = d.num - (entries.length - kept.length) ∧
      ∀ j < i - gap, cell after j = cell d j := by
  induction entries generalizing d i gap with
  | nil => exact ⟨rfl, rfl, fun _ _ => rfl⟩
  | cons entry rest ih =>
    rw [List.length_cons, slice_succ, List.map_cons, List.cons.injEq] at h
    obtain ⟨hcell, hrest⟩ := h
    have hle := List.length_filter_le (fun s : ε × SendMode => !select s.1) rest
    rw [marked] at hcell
    cases hselect : select entry.1 with
    | true =>
      rw [hselect, if_pos rfl] at hcell
      obtain ⟨hqueue, -⟩ := Prod.mk.inj hcell
      obtain ⟨hslice, hnum, hkept⟩ :=
        ih (d := { d with num := d.num - 1 }) (show gap + 1 ≤ i + 1 by omega) hrest
      rw [Nat.add_sub_add_right] at hslice hkept
      simp only [List.length_cons, compact, hqueue, List.filter_cons, hselect, Bool.not_true,
        Bool.false_eq_true, if_false]
      exact ⟨hslice, hnum.trans (by dsimp only; omega), hkept⟩
    | false =>
      rw [hselect, if_neg (by simp)] at hcell
      obtain ⟨hqueue, hmode⟩ := Prod.mk.inj hcell
      -- The cell is written in front of the gap, or stays where it is when there is none.
      obtain ⟨moved, hmoved, hnum', hfirst, hother⟩ : ∃ moved : Delayed ε,
          compact (rest.length + 1) i gap d = compact rest.length (i + 1) gap moved ∧
          moved.num = d.num ∧ cell moved (i - gap) = filled entry ∧
          ∀ j, j ≠ i - gap → cell moved j = cell d j := by
        rw [compact, hqueue]
        by_cases hzero : gap = 0
        · subst hzero
          exact ⟨d, rfl, rfl, hcell, fun _ _ => rfl⟩
        · refine ⟨_, if_pos hzero, rfl, ?_, fun j hj => cell_of_ne rfl rfl hj⟩
          simp [cell, filled, hmode]
      obtain ⟨hslice, hnum, hkept⟩ := ih (show gap ≤ i + 1 by omega)
        ((slice_congr fun j hj => hother j (by omega)).trans hrest)
      simp only [List.length_cons, hmoved, List.filter_cons, hselect, Bool.not_false, if_true,
        List.map_cons, slice_succ]
      rw [Nat.sub_add_comm hgap] at hslice hkept
      refine ⟨?_, ?_, fun j hj => ?_⟩
      · rw [hslice, hkept _ (by omega), hfirst]
      · rw [hnum, hnum']
        omega
      · rw [hkept j (by omega), hother j (by omega)]

variable (select) in
theorem collect_compact (h : Holds d entries) :
    ∃ after, collect select d.num 0 d = some (entries.filter fun s => select s.1, after) ∧
      ((entries.filter fun s => select s.1) = [] → Holds after (entries.filter fun s => !select s.1)) ∧
      Holds (compact d.num 0 0 after) (entries.filter fun s => !select s.1) := by
  obtain ⟨hnum, hslice⟩ := h
  rw [hnum] at hslice ⊢
  obtain ⟨after, hcollect, hsame, hmarked, -⟩ := collect_spec select hslice
  obtain ⟨hkept, hleft, -⟩ := compact_spec (Nat.le_refl 0) hmarked
  have hle := List.length_filter_le (fun s : ε × SendMode => !select s.1) entries
  have hcount : (compact entries.length 0 0 after).num =
      (entries.filter fun s => !select s.1).length := by
    rw [hleft, hsame, hnum]
    omega
  refine ⟨after, hcollect, fun hnone => ?_, hcount, ?_⟩
  · have hall : ∀ s ∈ entries, select s.1 = false := by simpa using hnone
    rw [List.filter_eq_self.mpr fun s hs => by simp [hall s hs]]
    refine ⟨hsame.trans hnum, ?_⟩
    rw [hsame, hnum, hmarked]
    exact List.map_congr_left fun s hs => by simp [marked, hall s hs]
  · rw [hcount]
    exact hkept

variable [QueueElement ε]

theorem notifications_running (samples : List (ε × SendMode)) : notifications false samples =
    samples.map fun s => (s.1, if s.2 = .terminated then .dropped else .delivered) := by
  simp [notifications, SendMode.fate]

/-- The matching notifications are sent in their order, and the arrays hold the others. -/
theorem delayed_notifications_matched (matches_ : Option (ε → Bool)) (d : Delayed ε)
    (entries : List (ε × SendMode)) (h : Holds d entries) :
    ∃ found after,
      sendDelayedNotifications false matches_ d = some (found,
        (entries.filter fun s => selects matches_ s.1).map
          (fun s => (s.1, if s.2 = .terminated then .dropped else .delivered)), after) ∧
      Holds after (entries.filter fun s => !selects matches_ s.1) := by
  obtain ⟨hnum, hslice⟩ := h
  simp only [sendDelayedNotifications, notifications_running]
  rcases entries with _ | ⟨entry, _ | ⟨second, rest⟩⟩
  · exact ⟨false, d, by simp [hnum], hnum, hslice⟩
  · have hcell : cell d 0 = filled entry := by
      rw [hnum] at hslice
      simpa [slice] using hslice
    obtain ⟨hqueue, hmode⟩ := Prod.mk.inj hcell
    simp only [hnum, List.length_singleton, hqueue, hmode, List.filter_cons]
    cases hselect : selects matches_ entry.1 with
    | true => exact ⟨true, { d.clear 0 with num := 0 }, by simp, by simp [Holds, slice]⟩
    | false => exact ⟨false, d, by simp, by simpa [Holds, hnum] using hslice⟩
  · obtain ⟨after, hcollect, hnone, hcompact⟩ :=
      collect_compact (selects matches_) ⟨hnum, hslice⟩
    rw [if_neg (by simp [hnum]), if_neg (by simp [hnum]), hcollect]
    cases hfound : (entry :: second :: rest).filter fun s => selects matches_ s.1 with
    | nil => exact ⟨false, after, rfl, hnone hfound⟩
    | cons sample samples => exact ⟨true, _, rfl, hcompact⟩

def sample (publicationId : Nat) : WholeElement := ⟨publicationId, [], false⟩

def nothing : Delayed WholeElement := ⟨fun _ => none, fun _ => .notSet, 0⟩

theorem nothing_holds : Holds nothing [] := ⟨rfl, rfl⟩

/-- Of three notifications, those of one element go and that of the other moves to the front. -/
theorem two_of_three_matched : ∃ found after,
    sendDelayedNotifications false (some fun e => e.publicationId == 1)
        (addDelayedNotification .terminated (sample 1) (addDelayedNotification .direct (sample 2)
          (addDelayedNotification .queue (sample 1) nothing))) =
      some (found, [(sample 1, .delivered), (sample 1, .dropped)], after) ∧
    Holds after [(sample 2, .direct)] :=
  delayed_notifications_matched (some fun e => e.publicationId == 1) _ _
    (add_holds .terminated (sample 1) (add_holds .direct (sample 2)
      (add_holds .queue (sample 1) nothing_holds)))

end OpenDDS.Guarantees.DelayedDelivery
