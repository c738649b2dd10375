import OpenDDS.Source.BitmapRuns
import OpenDDS.Source.RtpsWriter

/-!
The reply of `RtpsUdpDataLink::received(AckNackSubmessage)` to requests for durable data
(dds/DCPS/transport/rtps_udp/RtpsUdpDataLink.cpp): one iterator runs through
`durable_data_` while the requested ranges are visited, and the gaps are those between
the samples that are resent. An iterator is the list of the keys in front of it.

`durabilityReply_eq` ties the loops to the closed form in which the writer's model uses
them.
-/
namespace OpenDDS.Source.RtpsWriter
open Library.RangeList SequenceNumber DisjointSequence

/-- The variables of the loops: `lastSent`, `gaps` and the samples resent so far. -/
structure Progress where
  lastSent : Int
  gaps : List Range
  resent : List Int

/-- The body of the inner loop. -/
def Progress.resend (p : Progress) (seq : Int) : Except Fault Progress :=
  if seq > p.lastSent + 1 then
    match insertI p.gaps (ofValue (p.lastSent + 1), previous seq) with
    | .error fault => .error fault
    | .ok (_, gaps) => .ok { lastSent := seq, gaps := gaps, resent := p.resent ++ [seq] }
  else .ok { lastSent := seq, gaps := p.gaps, resent := p.resent ++ [seq] }

/-- The inner loop up to the end of a range, with the iterator it leaves. -/
def resendWithin (last : Int) : List Int → Progress → Except Fault (List Int × Progress)
  | [], p => .ok ([], p)
  | seq :: it, p =>
    if seq ≤ last then
      match p.resend seq with
      | .error fault => .error fault
      | .ok p => resendWithin last it p
    else .ok (seq :: it, p)

/-- The loop over `present_sequence_ranges()`. -/
def resendRanges : List Range → List Int → Progress → Except Fault Progress
  | [], _, p => .ok p
  | range :: psr, it, p =>
    match resendWithin range.2 (it.dropWhile fun seq => seq < range.1) p with
    | .error fault => .error fault
    | .ok (it, p) => resendRanges psr it p

/-- What is resent, and the gaps handed to `send_durability_gaps`, if any. -/
structure DurableReply where
  resent : List Int
  announced : List Range

/-- "Attempt to reply to nacks for durable data." -/
def answerRequests (durableData : List Int) (requests : List Range) : Except Fault DurableReply :=
  let lastSent := if empty requests then 0 else low requests - 1
  match resendRanges requests durableData ⟨lastSent, [], []⟩ with
  | .error fault => .error fault
  | .ok p =>
    if p.gaps.isEmpty && p.resent.isEmpty && !empty requests &&
        decide (high requests < durableData.headD 0) then .ok ⟨[], requests⟩
    else .ok ⟨p.resent, p.gaps⟩

/-- The branch of `received` for a base that does not lie above the durable data. -/
def answerDurable (fuel : Nat) (w : Writer) (ri : ReaderInfo) (acknack : AckNackSubmessage) :
    Except Fault DurableReply :=
  let ack := acknack.readerSNState.bitmapBase.value
  match insertBits fuel [] ack acknack.readerSNState.numBits acknack.readerSNState.bitmap with
  | .error fault => .error fault
  | .ok (grew, requests) =>
    -- A request for the base itself, if that is the number of the last heartbeat.
    let requests := if !grew && !acknack.final && decide (ack = heartbeatHigh w ri) &&
      ri.durableData.contains ack then [(ack, ack)] else requests
    answerRequests ri.durableData requests

section

variable {p : Progress} {psr : List Range} {it : List Int}

theorem resendWithin_eq (last : Int) (it : List Int) (p : Progress) :
    resendWithin last it p = ((it.takeWhile fun seq => seq ≤ last).foldlM Progress.resend p).map
      fun p => (it.dropWhile fun seq => seq ≤ last, p) := by
  induction it generalizing p with
  | nil => rfl
  | cons seq it ih =>
    unfold resendWithin
    by_cases hle : seq ≤ last
    · rw [if_pos hle, List.takeWhile_cons_of_pos (by simpa using hle),
        List.dropWhile_cons_of_pos (by simpa using hle), List.foldlM_cons]
      cases hresend : p.resend seq with
      | error fault => rfl
      | ok p' => exact ih p'
    · rw [if_neg hle, List.takeWhile_cons_of_neg (by simpa using hle),
        List.dropWhile_cons_of_neg (by simpa using hle)]
      rfl

theorem filter_between {first last : Int} (hasc : first ≤ last) (hs : it.Pairwise (· < ·)) :
    ((it.dropWhile fun seq => seq < first).takeWhile fun seq => seq ≤ last) =
        it.filter (fun seq => first ≤ seq ∧ seq ≤ last) ∧
      ((it.dropWhile fun seq => seq < first).dropWhile fun seq => seq ≤ last) =
        it.filter fun seq => last < seq := by
  induction it with
  | nil => exact ⟨rfl, rfl⟩
  | cons seq it ih =>
    obtain ⟨hlater, hrest⟩ := List.pairwise_cons.mp hs
    by_cases hlt : seq < first
    · have hnot : ¬ (first ≤ seq ∧ seq ≤ last) := by omega
      have hnot' : ¬ last < seq := by omega
      rw [List.dropWhile_cons_of_pos (by simpa using hlt), List.filter_cons_of_neg (by simpa using hnot),
        List.filter_cons_of_neg (by simpa using hnot')]
      exact ih hrest
    · rw [List.dropWhile_cons_of_neg (by simpa using hlt)]
      by_cases hle : seq ≤ last
      · have hdrop : (it.dropWhile fun seq => seq < first) = it := by
          cases it with
          | nil => rfl
          | cons x rest =>
            have := hlater x (by simp)
            exact List.dropWhile_cons_of_neg (by simp; omega)
        obtain ⟨htake, hdrop'⟩ := ih hrest
        rw [hdrop] at htake hdrop'
        rw [List.takeWhile_cons_of_pos (by simpa using hle),
          List.dropWhile_cons_of_pos (by simpa using hle), htake, hdrop',
          List.filter_cons_of_pos (by simp; omega), List.filter_cons_of_neg (by simp; omega)]
        exact ⟨rfl, rfl⟩
      · have hall : ∀ x ∈ seq :: it, last < x := by
          intro x hx
          rcases List.mem_cons.mp hx with rfl | hx
          · omega
          · have := hlater x hx
            omega
        rw [List.takeWhile_cons_of_neg (by simpa using hle),
          List.dropWhile_cons_of_neg (by simpa using hle),
          List.filter_eq_nil_iff.mpr fun x hx => by have := hall x hx; simp; omega,
          List.filter_eq_self.mpr fun x hx => by simpa using hall x hx]
        exact ⟨rfl, rfl⟩

theorem resendRanges_eq (hc : Canonical psr) (hs : it.Pairwise (· < ·)) (p : Progress) :
    resendRanges psr it p = (it.filter fun seq => contains psr seq).foldlM Progress.resend p := by
  induction psr generalizing it p with
  | nil =>
    have hnone : (it.filter fun seq => contains [] seq) = [] :=
      List.filter_eq_nil_iff.mpr fun seq _ => by simp [contains, startsBy, reaching]
    rw [hnone]
    rfl
  | cons range psr ih =>
    have hasc := hc.nonempty range (by simp)
    have hcrest := (canonical_cons.mp hc).2.2
    obtain ⟨htake, hdrop⟩ := filter_between hasc hs
    have hsplit : (it.filter fun seq => contains (range :: psr) seq) =
        it.filter (fun seq => range.1 ≤ seq ∧ seq ≤ range.2) ++
          (it.filter fun seq => range.2 < seq).filter fun seq => contains psr seq := by
      have hcovers : ∀ seq, contains (range :: psr) seq = true ↔
          (range.1 ≤ seq ∧ seq ≤ range.2) ∨ contains psr seq = true := by
        intro seq
        rw [contains_iff hc, contains_iff hcrest, covers_cons]
      have hbehind : ∀ seq, contains psr seq = true → range.2 < seq := by
        intro seq hseq
        obtain ⟨r, hr, hlo, -⟩ := (contains_iff hcrest seq).mp hseq
        have := hc.head_lt hr
        omega
      clear htake hdrop ih
      induction it with
      | nil => rfl
      | cons seq it ih =>
        obtain ⟨hlater, hrest⟩ := List.pairwise_cons.mp hs
        have hih := ih hrest
        by_cases hin : range.1 ≤ seq ∧ seq ≤ range.2
        · have hnot : ¬ range.2 < seq := by omega
          rw [List.filter_cons_of_pos ((hcovers seq).mpr (.inl hin)),
            List.filter_cons_of_pos (by simpa using hin), List.filter_cons_of_neg (by simpa using hnot),
            hih, List.cons_append]
        · by_cases hnext : contains psr seq = true
          · have hgt := hbehind seq hnext
            have hempty : (it.filter fun seq => range.1 ≤ seq ∧ seq ≤ range.2) = [] := by
              refine List.filter_eq_nil_iff.mpr fun x hx => ?_
              have := hlater x hx
              simp
              omega
            rw [hempty, List.nil_append] at hih
            rw [List.filter_cons_of_pos ((hcovers seq).mpr (.inr hnext)),
              List.filter_cons_of_neg (by simpa using hin), List.filter_cons_of_pos (by simpa using hgt),
              List.filter_cons_of_pos hnext, hempty, List.nil_append, hih]
          · have hneither : ¬ contains (range :: psr) seq = true := by
              rw [hcovers]
              exact not_or.mpr ⟨hin, hnext⟩
            rw [List.filter_cons_of_neg hneither, List.filter_cons_of_neg (by simpa using hin), hih]
            by_cases hgt : range.2 < seq
            · rw [List.filter_cons_of_pos (by simpa using hgt), List.filter_cons_of_neg hnext]
            · rw [List.filter_cons_of_neg (by simpa using hgt)]
    rw [resendRanges, resendWithin_eq, htake, hdrop, hsplit, List.foldlM_append]
    cases hfirst : (it.filter fun seq => range.1 ≤ seq ∧ seq ≤ range.2).foldlM Progress.resend p with
    | error fault => rfl
    | ok p' => exact ih hcrest (hs.filter _) p'

theorem foldlM_resend_eq (seqs : List Int) (p : Progress) :
    (seqs.foldlM Progress.resend p).map (fun p => (p.resent, p.gaps)) =
      (durabilityGaps p.lastSent seqs p.gaps).map fun gaps => (p.resent ++ seqs, gaps) := by
  induction seqs generalizing p with
  | nil => simp [durabilityGaps, Except.map, pure, Except.pure]
  | cons seq seqs ih =>
    rw [List.foldlM_cons, durabilityGaps]
    by_cases hgap : seq > p.lastSent + 1
    · rw [Progress.resend, if_pos hgap, if_pos hgap]
      cases insertI p.gaps (ofValue (p.lastSent + 1), previous seq) with
      | error fault => rfl
      | ok result =>
        have hrest := ih ⟨seq, result.2, p.resent ++ [seq]⟩
        rw [List.append_assoc] at hrest
        exact hrest
    · rw [Progress.resend, if_neg hgap, if_neg hgap]
      have hrest := ih ⟨seq, p.gaps, p.resent ++ [seq]⟩
      rw [List.append_assoc] at hrest
      exact hrest

theorem filter_contains_nil (keys : List Int) : (keys.filter fun seq => contains [] seq) = [] :=
  List.filter_eq_nil_iff.mpr fun seq _ => by simp [contains, startsBy, reaching]

theorem answerRequests_eq {requests : List Range} {keys : List Int} (hc : Canonical requests)
    (hs : keys.Pairwise (· < ·)) :
    answerRequests keys requests =
      (durabilityGaps (low requests - 1) (keys.filter fun seq => contains requests seq) []).map
        fun gaps =>
          if gaps.isEmpty && (keys.filter fun seq => contains requests seq).isEmpty &&
              !requests.isEmpty && decide (high requests < keys.headD 0) then ⟨[], requests⟩
          else ⟨keys.filter fun seq => contains requests seq, gaps⟩ := by
  have hlast : durabilityGaps (low requests - 1) (keys.filter fun seq => contains requests seq) [] =
      durabilityGaps (if empty requests then 0 else low requests - 1)
        (keys.filter fun seq => contains requests seq) [] := by
    cases requests with
    | nil =>
      rw [filter_contains_nil]
      rfl
    | cons range rest => rfl
  have hfold := foldlM_resend_eq (keys.filter fun seq => contains requests seq)
    ⟨if empty requests then 0 else low requests - 1, [], []⟩
  unfold answerRequests
  rw [hlast]
  simp only [resendRanges_eq hc hs, List.nil_append] at hfold ⊢
  generalize (keys.filter fun seq => contains requests seq).foldlM Progress.resend
    ⟨if empty requests then 0 else low requests - 1, [], []⟩ = loop at hfold ⊢
  generalize durabilityGaps (if empty requests then 0 else low requests - 1)
    (keys.filter fun seq => contains requests seq) [] = result at hfold ⊢
  cases loop with
  | error fault =>
    cases result with
    | error fault' =>
      cases hfold
      rfl
    | ok gaps => cases hfold
  | ok p =>
    cases result with
    | error fault => cases hfold
    | ok gaps =>
      simp only [Except.map, Except.ok.injEq, Prod.mk.injEq] at hfold
      simp only [hfold.1, hfold.2, Except.map, DisjointSequence.empty]
      split <;> rfl

end

end OpenDDS.Source.RtpsWriter
