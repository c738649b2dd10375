import OpenDDS.Guarantees.AscendingRanges
import OpenDDS.Guarantees.RequestExpiry
import OpenDDS.Guarantees.SequenceSet

/-!
# The NAKs that a passive multicast session sends

`send_naks` leaves out what it asked for in the intervals before: the ignored ranges run
between recorded high-water marks, and the newest mark takes no part in them. So a number
above the second newest mark is always asked for, once the session is acked; before that
no NAK is sent.
-/
namespace OpenDDS.Guarantees.RequestSuppression
open Library Library.RangeList Source.SequenceNumber Source.DisjointSequence
open Source.ReliableSession
open AscendingRanges (ignoredRanges_ascending suppress_total)
open RequestExpiry (Reached InDomain)

section

variable {seqs received : List Range} {n : Int}

theorem covers_missingSequenceRanges (wf : WellFormed seqs) (hn : ¬ Covers seqs n)
    (hlo : low seqs ≤ n) (hhi : n ≤ high seqs) (hne : seqs ≠ []) :
    disjoint seqs = true ∧ Covers (missingSequenceRanges seqs) n := by
  rw [SequenceSet.missingSequenceRanges_eq_gaps wf]
  have hgaps : ∀ rs : List Range, rs ≠ [] → Canonical rs → ¬ Covers rs n → low rs ≤ n →
      n ≤ high rs → disjoint rs = true ∧ Covers (gaps rs) n := by
    intro rs
    induction rs with
    | nil => exact fun hne => absurd rfl hne
    | cons a rest ih =>
      intro _ hc hn hlo hhi
      rw [low_cons] at hlo
      cases rest with
      | nil => exact absurd ⟨a, by simp, hlo, hhi⟩ hn
      | cons b rest =>
        refine ⟨by simp [disjoint], ?_⟩
        rw [covers_cons, not_or] at hn
        rw [gaps, covers_cons]
        by_cases hb : n < b.1
        · exact .inl ⟨by omega, by simp only; omega⟩
        · have hhigh : high (a :: b :: rest) = high (b :: rest) := by simp [high]
          exact .inr (ih (by simp) (canonical_cons.mp hc).2.2 hn.2 (not_lt.mp hb) (hhigh ▸ hhi)).2
  exact hgaps seqs hne wf.canonical hn hlo hhi

theorem suppress_below (wf : WellFormed received) (hmax : n ≤ maxValue) (ignored : List Range)
    (h : ∀ p ∈ ignored, 0 ≤ p.1 ∧ p.1 ≤ p.2 ∧ p.2 < n) :
    ∃ after, suppress received ignored = .ok after ∧ WellFormed after ∧
      (∀ m, Covers received m → Covers after m) ∧ (Covers after n → Covers received n) := by
  induction ignored generalizing received with
  | nil => exact ⟨received, rfl, wf, fun _ hm => hm, id⟩
  | cons p rest ih =>
    have hrest : ∀ q ∈ rest, _ := fun q hq => h q (by simp [hq])
    obtain ⟨hpos, hasc, hlt⟩ := h p (by simp)
    unfold suppress
    split
    · generalize hlow : (if p.1 < cumulativeAck received then cumulativeAck received else p.1) = low
      have hbounds : 0 ≤ low ∧ low ≤ p.2 := by
        rw [← hlow]
        split
        · omega
        · exact ⟨hpos, hasc⟩
      obtain ⟨grew, seqs, heq, hwf, hcov⟩ := insertI_spec (low, p.2) wf hbounds.1 hbounds.2
        (by simp only; omega) fun hclash => by
          have hlast : p.2 = maxValue := hclash.1
          omega
      obtain ⟨after, hafter, hwf', hkeep, hnew⟩ := ih hwf hrest
      simp only [heq]
      refine ⟨after, hafter, hwf', fun m hm => hkeep m ((hcov m).mpr (.inl hm)), fun hn => ?_⟩
      rcases (hcov n).mp (hnew hn) with hold | ⟨-, hle⟩
      · exact hold
      · omega
    · exact ih wf hrest

end

/-- The mark before the newest is below `n`, if there is one. -/
def AboveSecond (requests : List (Int × Int)) (n : Int) : Prop :=
  ∀ older r newest, requests = older ++ [r, newest] → r.2 < n

def Missing (s : Session) (n : Int) : Prop :=
  ¬ Covers s.nakSequence n ∧ low s.nakSequence < n ∧ n < high s.nakSequence

/-- The requests that `send_naks` has recorded when it looks at them. -/
def recorded (s : Session) (now : Int) : List (Int × Int) :=
  recordRequest now (high s.nakSequence) s.nakRequests

section

variable {n : Int}

theorem AboveSecond.older {requests : List (Int × Int)} (h : AboveSecond requests n)
    (hmono : requests.Pairwise fun a b => a.2 ≤ b.2) : ∀ r ∈ requests.dropLast, r.2 < n := by
  intro r hr
  have hne : requests ≠ [] := by
    rintro rfl
    cases hr
  have hne' : requests.dropLast ≠ [] := List.ne_nil_of_mem hr
  have hsplit : requests = requests.dropLast.dropLast ++
      [requests.dropLast.getLast hne', requests.getLast hne] := by
    conv_lhs => rw [← List.dropLast_concat_getLast hne, ← List.dropLast_concat_getLast hne']
    simp
  have hsecond := h _ _ _ hsplit
  have hle : r.2 ≤ (requests.dropLast.getLast hne').2 := by
    have hmono' := hmono.sublist (List.dropLast_sublist requests)
    rw [← List.dropLast_concat_getLast hne'] at hmono' hr
    rcases List.mem_append.mp hr with hr | hr
    · exact (List.pairwise_append.mp hmono').2.2 r hr _ (by simp)
    · rw [List.mem_singleton.mp hr]
  omega

end

/-- `send_naks` raises nothing, and its NAK covers every missing number above the second newest
mark that no peer has asked for. -/
def Requests (config : Config) (s : Session) (now : Int) : Prop :=
  ∃ naks after, sendNaks config s now = .ok (naks, after) ∧
    ∀ n, Missing s n → AboveSecond (recorded s now) n → ¬ Covers s.nakPeers n → Covers naks n

/-- In every session that is acked and was reached by positive numbers, the missing numbers are
requested if the recorded marks do not decrease in time. -/
theorem missing_requested (config : Config) (s : Session) (hs : Reached InDomain config s)
    (hacked : s.acked = true) (now : Int)
    (hmono : (recorded s now).Pairwise fun a b => a.2 ≤ b.2) : Requests config s now := by
  have inv := hs.tracked
  by_cases hdisjoint : disjoint s.nakSequence = true
  · have hne : s.nakSequence ≠ [] := by
      rintro h
      simp [h, disjoint] at hdisjoint
    have hinv := inv.record hacked hdisjoint now
    have hmarks : (recorded s now).Pairwise fun a b => a.1 < b.1 ∧ a.2 ≤ b.2 :=
      hinv.times.and hmono
    obtain ⟨received, hsuppress⟩ := suppress_total inv.wellFormed
      (ignoredRanges config (recorded s now))
      (ignoredRanges_ascending (P := fun v => 0 ≤ v ∧ v ≤ maxValue) hmarks fun r hr => by
        have hmark := hinv.marks r (List.dropLast_subset _ hr)
        omega)
    refine ⟨if disjoint received then missingSequenceRanges received else [],
      { s with nakRequests := recorded s now, nakPeers := [] }, ?_, ?_⟩
    · unfold sendNaks
      simp only [recorded] at hsuppress
      simp only [hacked, hdisjoint, hsuppress, inv.peers, suppressPeers]
      rfl
    · rintro n ⟨hn, hlo, hhi⟩ habove -
      have hbelow : ∀ p ∈ ignoredRanges config (recorded s now),
          (0 ≤ p.1 ∧ p.1 < n) ∧ (0 ≤ p.2 ∧ p.2 < n) ∧ p.1 ≤ p.2 :=
        ignoredRanges_ascending (P := fun v => 0 ≤ v ∧ v < n) hmarks fun r hr => by
          have hmark := hinv.marks r (List.dropLast_subset _ hr)
          exact ⟨by omega, habove.older hmono r hr⟩
      have hlast := high_le inv.wellFormed hne
      obtain ⟨after, hafter, hwf, hkeep, hnew⟩ := suppress_below inv.wellFormed (n := n) (by omega)
        (ignoredRanges config (recorded s now)) fun p hp =>
          ⟨(hbelow p hp).1.1, (hbelow p hp).2.2, (hbelow p hp).2.1.2⟩
      rw [hsuppress, Except.ok.injEq] at hafter
      subst hafter
      have hclow := hkeep _ (covers_low inv.wellFormed.canonical hne)
      have hchigh := hkeep _ (covers_high inv.wellFormed.canonical hne)
      have hlow' := low_le hwf.canonical hclow
      have hhigh' := le_high hwf.canonical hchigh
      obtain ⟨hd, hcovers⟩ := covers_missingSequenceRanges hwf (fun h => hn (hnew h)) (by omega)
        (by omega) (ne_nil_of_covers hclow)
      rw [if_pos hd]
      exact hcovers
  · refine ⟨[], s, by simp [sendNaks, hacked, hdisjoint], ?_⟩
    rintro n ⟨hn, hlo, hhi⟩ - -
    have hne : s.nakSequence ≠ [] := by
      rintro h
      rw [h] at hlo hhi
      have hzero : low [] = high [] := rfl
      omega
    exact absurd (covers_missingSequenceRanges inv.wellFormed hn hlo.le hhi.le hne).1 hdisjoint

/-- Number 4 came to be missing after the mark 3 was recorded. -/
theorem missing_requested_waiting :
    Requests RequestExpiry.expiryConfig RequestExpiry.waiting 120 :=
  missing_requested _ _ RequestExpiry.waiting_reached rfl 120 (by decide)

/-- Two ticks are between two requests. -/
def everySecond : Config :=
  { localPeer := 1, nakTimeout := 1000, nakDelayIntervals := 1, nakMax := 3 }

/-- Numbers below one were received as they were read, and two marks are among them. -/
def belowOneReceived : Session :=
  ⟨7, true, [(-9, -9), (-5, -5), (-3, -3), (-1, -1), (2, 2)], [(100, -5), (101, -3)], []⟩

theorem belowOne_reached : Reached (fun _ => True) everySecond belowOneReceived :=
  ⟨7, true, [] ++ [.header ⟨7, -9⟩, .header ⟨7, -5⟩, .tick 100 100, .header ⟨7, -3⟩, .tick 101 101,
    .header ⟨7, -1⟩, .header ⟨7, 2⟩], RequestExpiry.run_events .start (fun _ _ => trivial) rfl⟩

/-- Numbers 1 and 3 have arrived before the SYN. In the acked session numbers below one are
searched for at zero, so the ignored range is put in by iterators in the wrong order. -/
theorem unacked_not_requested :
    (¬ ∀ (config : Config) (s : Session) (_ : Reached InDomain config s) (now : Int)
      (_ : (recorded s now).Pairwise fun a b => a.2 ≤ b.2), Requests config s now) ∧
    ¬ ∀ (config : Config) (s : Session) (_ : Reached (fun _ => True) config s)
      (_ : s.acked = true) (now : Int) (_ : (recorded s now).Pairwise fun a b => a.2 ≤ b.2),
      Requests config s now := by
  constructor
  · intro claim
    obtain ⟨naks, after, heq, hall⟩ := claim RequestExpiry.expiryConfig
      ⟨7, false, [(1, 1), (3, 3)], [], []⟩ ⟨7, false, [] ++ [.header ⟨7, 1⟩, .header ⟨7, 3⟩],
        RequestExpiry.run_events .start (by simp [InDomain, RequestExpiry.Positive, maxValue]) rfl⟩
      100 (by decide)
    cases heq
    refine covers_nil 2 (hall 2 ⟨by simp, by decide, by decide⟩ (fun older r newest hsplit => ?_)
      (covers_nil 2))
    have hlength := congrArg List.length hsplit
    simp [recorded, recordRequest] at hlength
  · intro claim
    obtain ⟨naks, after, heq, -⟩ := claim everySecond belowOneReceived belowOne_reached rfl 500
      (by decide)
    have herror : sendNaks everySecond belowOneReceived 500 = .error .iteratorRange := rfl
    rw [herror] at heq
    cases heq

end OpenDDS.Guarantees.RequestSuppression
