import OpenDDS.Guarantees.ReadAccess

/-!
# The bounds of the sequences

How many samples a read or a take gives. `check_inputs` replaces a `max_samples` of
`LENGTH_UNLIMITED` by the maximum of the sequence in its own copy, so that the samples are counted by
a limit of 2^32 - 1 instead: for every cache in order, a call gives the first samples that it is
asked for exactly where the sequence was passed as the check wants it and, with
`LENGTH_UNLIMITED`, all that match fit into the sequence of the caller.
-/
namespace OpenDDS.Guarantees.SequenceBounds
open Source Source.ReaderCache Cache ReadAccess

variable {δ : Type} {c : Cache δ} {samples : Nat → List Nat} {handles : List Nat} {handle : Nat}
  {call : Call δ}

/-- The caller owns the buffer of the sequence and asks for no more than it can hold, or gives the
sequence for loans. The numbers are machine integers. -/
structure Asked (call : Call δ) : Prop where
  owned : 0 < call.sequences.maximum → call.sequences.release = true ∧
    (call.maxSamples = lengthUnlimited ∨ call.maxSamples ≤ call.sequences.maximum)
  maximum : call.sequences.maximum < 2 ^ 32
  lower : -2 ^ 31 ≤ call.maxSamples
  upper : call.maxSamples < 2 ^ 31

/-- How many of `matches` samples are asked for. -/
def wanted (call : Call δ) (count : Nat) : Nat :=
  if call.maxSamples = lengthUnlimited then
    if call.sequences.maximum = 0 then count else min call.sequences.maximum count
  else if call.sequences.maximum = 0 then min call.maxSamples.toNat count
  else min (min call.sequences.maximum call.maxSamples.toNat) count

/-- The call gives the first samples of those that match, as many as are asked for. -/
def Gives (c : Cache δ) (call : Call δ) (handles : List Nat)
    (run : Except Fault (Access δ)) : Prop :=
  let found := c.inOrder call.request (c.matching call.request call.choice.masks handles)
  ∃ access output, run = .ok access ∧ access.output = some output ∧
    output.receivedData = ((found.take (wanted call found.length)).map RakeData.rde).map
      (TakeAsRead.place c call.request.zeroCopy)

/-- With `LENGTH_UNLIMITED` the samples fit, and nothing matches where less than nothing is
asked for. -/
structure Fits (call : Call δ) (count : Nat) : Prop where
  owned : call.maxSamples = lengthUnlimited → 0 < call.sequences.maximum →
    count ≤ call.sequences.maximum ∨ call.sequences.maximum = 2 ^ 32 - 1
  loaned : call.maxSamples = lengthUnlimited → call.sequences.maximum = 0 → count < 2 ^ 32
  negative : call.maxSamples < lengthUnlimited → count = 0

theorem limit_eq (asked : Asked call) : call.request.limit =
    if call.maxSamples < 0 then (2 ^ 32 + call.maxSamples).toNat else call.maxSamples.toNat := by
  have hlower := asked.lower
  have hupper := asked.upper
  unfold Request.limit Call.request
  dsimp only
  split <;> omega

theorem fits_iff (asked : Asked call) (count : Nat) :
    min call.request.limit count = min (wanted call count) count ↔ Fits call count := by
  have hlower := asked.lower
  have hmaximum := asked.maximum
  have howned := asked.owned
  have hfits : Fits call count ↔
      (call.maxSamples = -1 → 0 < call.sequences.maximum →
        count ≤ call.sequences.maximum ∨ call.sequences.maximum = 2 ^ 32 - 1) ∧
      (call.maxSamples = -1 → call.sequences.maximum = 0 → count < 2 ^ 32) ∧
      (call.maxSamples < -1 → count = 0) :=
    ⟨fun h => ⟨h.owned, h.loaned, h.negative⟩, fun h => ⟨h.1, h.2.1, h.2.2⟩⟩
  rw [hfits, limit_eq asked]
  unfold wanted
  unfold lengthUnlimited at howned ⊢
  by_cases hunlimited : call.maxSamples = -1
  · rw [if_pos hunlimited, if_pos (by omega)]
    split <;> omega
  · rw [if_neg hunlimited]
    by_cases hnegative : call.maxSamples < 0
    · rw [if_pos hnegative]
      split <;> omega
    · rw [if_neg hnegative]
      split <;> omega

theorem rake_gives (oper : ReaderCache.Operation) (asked : Asked call) (w : Wf c samples)
    (nodup : handles.Nodup) (found : ∀ h ∈ handles, (c.getHandleInstance h).isSome) :
    Gives c call handles (c.checked call
        ((c.rake oper call.request call.choice.masks handles).map .answer)) ↔
      Performed call ∧ FilterTotal c call.request call.choice.masks handles ∧
        Fits call (c.matching call.request call.choice.masks handles).length := by
  by_cases hperformed : Performed call
  · rw [checked_performed hperformed]
    by_cases htotal : FilterTotal c call.request call.choice.masks handles
    · obtain ⟨output, c', hok, hreceived, -⟩ := rake_total oper w nodup found htotal
      have horder : (c.inOrder call.request
          (c.matching call.request call.choice.masks handles)).Perm
        (c.matching call.request call.choice.masks handles) := inOrder_perm _
      rw [hok, ← fits_iff asked, ← horder.length_eq]
      unfold given at hreceived
      constructor
      · rintro ⟨access, output', hrun, houtput, hgiven⟩
        cases hrun
        cases houtput
        rw [hreceived] at hgiven
        have hlength := congrArg List.length hgiven
        simp only [List.length_map, List.length_take] at hlength
        exact ⟨hperformed, htotal, hlength⟩
      · rintro ⟨-, -, hlength⟩
        refine ⟨_, output, rfl, rfl, ?_⟩
        rw [hreceived, List.take_eq_take_iff.mpr hlength]
    · apply iff_of_false
      · rintro ⟨access, output, hrun, -, -⟩
        have hreturns : Returns (c.rake oper call.request call.choice.masks handles) :=
          returns_map.mp ⟨access, hrun⟩
        exact htotal ((rake_returns oper w nodup found).mp hreturns)
      · exact fun h => htotal h.2.1
  · rw [checked_refused hperformed]
    apply iff_of_false
    · rintro ⟨access, output, hrun, houtput, -⟩
      cases hrun
      cases houtput
    · exact fun h => hperformed h.1

/-- Which reads and takes give the first samples that they are asked for. -/
theorem bounded_iff (w : Wf c samples) (call : Call δ) (asked : Asked call) :
    (Gives c call (c.instanceMap.map Prod.snd) (c.read call) ↔ Performed call ∧
      FilterTotal c call.request call.choice.masks (c.instanceMap.map Prod.snd) ∧
      Fits call (c.matching call.request call.choice.masks (c.instanceMap.map Prod.snd)).length) ∧
    (Gives c call (c.instanceMap.map Prod.snd) (c.take call) ↔ Performed call ∧
      FilterTotal c call.request call.choice.masks (c.instanceMap.map Prod.snd) ∧
      Fits call (c.matching call.request call.choice.masks (c.instanceMap.map Prod.snd)).length) ∧
    ∀ handle inst, c.getHandleInstance handle = some inst →
      (Gives c call [handle] (c.readInstance call handle) ↔ Performed call ∧
        FilterTotal c call.request call.choice.masks [handle] ∧
        Fits call (c.matching call.request call.choice.masks [handle]).length) ∧
      (Gives c call [handle] (c.takeInstance call handle) ↔ Performed call ∧
        FilterTotal c call.request call.choice.masks [handle] ∧
        Fits call (c.matching call.request call.choice.masks [handle]).length) := by
  refine ⟨rake_gives .read asked w w.distinct w.found,
    rake_gives .take asked w w.distinct w.found, ?_⟩
  intro handle inst hinst
  have hfound : ∀ h ∈ [handle], (c.getHandleInstance h).isSome := by
    intro h hh
    rw [List.mem_singleton.mp hh, hinst]
    rfl
  have hread := rake_gives .read asked w (List.nodup_singleton handle) hfound
  rw [← readOne_known call hinst] at hread
  exact ⟨hread, rake_gives .take asked w (List.nodup_singleton handle) hfound⟩

/-- A sequence that can hold `room` samples. -/
def roomFor (room : Nat) : Call Nat :=
  { anyCall with sequences := ⟨0, 0, room, true, 0⟩ }

theorem roomFor_asked (room : Nat) (small : room < 2 ^ 32) : Asked (roomFor room) :=
  ⟨fun _ => ⟨rfl, .inl rfl⟩, small, (by decide : (-2 ^ 31 : Int) ≤ lengthUnlimited),
    (by decide : lengthUnlimited < 2 ^ 31)⟩

theorem bounded_iff_one :
    Gives TakeAsRead.lastHeld (roomFor 2) (TakeAsRead.lastHeld.instanceMap.map Prod.snd)
      (TakeAsRead.lastHeld.read (roomFor 2)) := by
  apply (bounded_iff TakeAsRead.lastHeld_wf (roomFor 2) (roomFor_asked 2 (by decide))).1.mpr
  refine ⟨⟨by decide, rfl⟩, ?_, ⟨fun _ _ => .inl (by decide), ?_, ?_⟩⟩
  · intro handle _ a _ hfilter
    exact nomatch hfilter
  · intro _ hmaximum
    exact nomatch hmaximum
  · intro hnegative
    exact absurd hnegative (by decide)

/-- A reader that has received a sample of each of three instances. -/
def threeHeld : Cache Nat :=
  (HistoryDepth.replay [HistoryDepth.messageAt .sampleData 10,
    { HistoryDepth.messageAt .sampleData 11 with key := 2 },
    { HistoryDepth.messageAt .sampleData 12 with key := 3 }]).cache

/-- A read and a take with `LENGTH_UNLIMITED` put three samples into a sequence for two. -/
theorem three_for_two : (roomFor 2).sequences.maximum = 2 ∧ (roomFor 2).maxSamples = lengthUnlimited ∧
    (threeHeld.read (roomFor 2)).map (fun access => access.output.map (·.receivedData.length)) =
      .ok (some 3) ∧
    (threeHeld.take (roomFor 2)).map (fun access => access.output.map (·.receivedData.length)) =
      .ok (some 3) := by
  refine ⟨rfl, rfl, ?_, ?_⟩ <;> decide +kernel

end OpenDDS.Guarantees.SequenceBounds
