import OpenDDS.Guarantees.BufferedResend
import OpenDDS.Source.NackFragLoops

/-!
The loops over a range of sequence numbers that a peer has sent: `has_fragments`,
`remove_fragments` and `resend_i`. The number after the largest one is 1, so that a range which
ends there has no number behind it.
-/
namespace OpenDDS.Guarantees.RangeLoops
open Library.RangeList Source Source.SequenceNumber Source.NackFrags
open Source.DataSampleHeader (GUID)
open Source.DisjointSequence (WellFormed Bitmap)
open Source.TransportReassembly (Reassembly)

variable {PDU : Type}

def iterations (range : Range) : Nat := (range.2 - range.1 + 1).toNat

/-- Each loop ends when its condition is tested after so many iterations, if not before. -/
structure Ends (r : Reassembly) (pubId : GUID) (memory : Int → Bitmap) (fragInfo : FragmentInfo)
    (buffer : SingleSendBuffer PDU) (gaps : Option (List Range)) (range : Range) : Prop where
  hasFragments : (hasFragments r pubId memory (iterations range + 1) range.1 range.2 fragInfo).isSome
  hasAnyFragments : (hasAnyFragments r pubId (iterations range + 1) range.1 range.2).isSome
  removeFragments : (removeFragments pubId (iterations range + 1) range.1 range.2 r).isSome
  resend : ∃ resent, buffer.resendLoop range.2 (iterations range + 1) range.1 gaps = .ok resent

variable {r : Reassembly} {pubId : GUID} {fuel : Nat} {sn last : Int}

theorem hasAnyFragments_ends (hlast : last < maxValue) (hfuel : (last - sn + 1).toNat < fuel) :
    (hasAnyFragments r pubId fuel sn last).isSome := by
  induction fuel generalizing sn with
  | zero => omega
  | succ fuel ih =>
    rw [hasAnyFragments]
    split_ifs with hle
    · rfl
    · rw [next_of_lt (by omega)]
      exact ih (by omega)
    · rfl

theorem removeFragments_ends (hlast : last < maxValue) (hfuel : (last - sn + 1).toNat < fuel) :
    (removeFragments pubId fuel sn last r).isSome := by
  induction fuel generalizing sn r with
  | zero => omega
  | succ fuel ih =>
    rw [removeFragments]
    split_ifs with hle
    · rw [next_of_lt (by omega)]
      exact ih (by omega)
    · rfl

/-- The loops end in time exactly for the ranges that end below the largest number. -/
theorem loops_end_iff (r : Reassembly) (pubId : GUID) (memory : Int → Bitmap)
    (fragInfo : FragmentInfo) (buffer : SingleSendBuffer PDU) (gaps : Option (List Range))
    (range : Range) (hgaps : ∀ seqs, gaps = some seqs → WellFormed seqs)
    (hfirst : 0 ≤ range.1 ∧ range.1 ≤ maxValue) (hsecond : 0 ≤ range.2 ∧ range.2 ≤ maxValue) :
    Ends r pubId memory fragInfo buffer gaps range ↔ range.2 < maxValue := by
  constructor
  · intro hends
    obtain ⟨entries, hentries⟩ := Option.isSome_iff_exists.mp hends.hasFragments
    exact (hasFragments_some hsecond.2 hfirst.2 hentries).1
  · intro hlt
    have hfuel : (range.2 - range.1 + 1).toNat < iterations range + 1 := Nat.lt_succ_self _
    obtain ⟨after, hloop, -⟩ :=
      BufferedResend.resendLoop_spec (b := buffer) hlt _ _ gaps hfirst.1 hgaps hfuel
    refine ⟨?_, hasAnyFragments_ends hlt hfuel, removeFragments_ends hlt hfuel, _, hloop⟩
    rw [hasFragments_eq hlt (by omega)]
    rfl

def peer : GUID := ⟨.replicate 12 0, .replicate 3 0, 3⟩

/-- A heartbeat for the numbers 3 to 5. -/
theorem loops_end_below : Ends ⟨[], []⟩ peer (fun _ _ => 0) []
    (SingleSendBuffer.construct 8 : SingleSendBuffer Nat) (some []) (3, 5) :=
  (loops_end_iff ⟨[], []⟩ peer (fun _ _ => 0) [] (SingleSendBuffer.construct 8) (some [])
    (3, 5) (fun _ h => by cases h; exact DisjointSequence.wellFormed_nil) (by decide)
    (by decide)).mpr (by decide)

/-- The range of the largest number alone takes more than one iteration. -/
theorem largest_number_endless : ¬ Ends ⟨[], []⟩ peer (fun _ _ => 0) []
    (SingleSendBuffer.construct 8 : SingleSendBuffer Nat) (some []) (maxValue, maxValue) := by
  intro hends
  exact absurd hends.removeFragments (by decide)

end OpenDDS.Guarantees.RangeLoops
