import OpenDDS.Source.Lifespan

/-!
# The expiry of samples

Reader and writer compute the same expiration time. It is the exact one as long as the
seconds of the timestamp and of the lifespan together stay within 32 bits, and the
nanoseconds as well; the seconds are added before they are widened.
-/
namespace OpenDDS.Guarantees.LifespanExpiry

open Source Source.Lifespan Source.QosHelper
open Source.DataSampleHeader (Header)

/-- The end of a lifespan, in microseconds. -/
def expiration (timestamp : Time_t) (lifespan : Duration_t) : Int :=
  (nanos timestamp + nanos ⟨lifespan.sec, lifespan.nanosec⟩) / 1000

/-- Both sides take a sample for expired from the end of its lifespan on. What the reader
filters for other reasons is filtered all the same. -/
structure ExpiresExactly (timestamp : Time_t) (lifespan : Duration_t) : Prop where
  reader : ∀ r h now, filterSample r (stamp h timestamp lifespan) now =
    (discardsHistoric r h || decide (expiration timestamp lifespan ≤ now) || awaitsHistoric r h)
  writer : ∀ h now, resendDataExpired (stamp h timestamp lifespan) lifespan now =
    decide (expiration timestamp lifespan ≤ now)

/-- The fields of the two together have no more than 32 bits. -/
structure Fits (timestamp : Time_t) (lifespan : Duration_t) : Prop where
  lower : -2 ^ 31 ≤ timestamp.sec.toInt + lifespan.sec.toInt
  upper : timestamp.sec.toInt + lifespan.sec.toInt < 2 ^ 31
  nanosec : timestamp.nanosec.toNat + lifespan.nanosec.toNat < 2 ^ 32

variable {timestamp : Time_t} {lifespan : Duration_t}

def computed (timestamp : Time_t) (lifespan : Duration_t) : Int :=
  timeToTimeValue ⟨timestamp.sec + lifespan.sec, timestamp.nanosec + lifespan.nanosec⟩

theorem computed_eq_iff : computed timestamp lifespan = expiration timestamp lifespan ↔
    Fits timestamp lifespan := by
  obtain ⟨tsec, tnano⟩ := timestamp
  obtain ⟨dsec, dnano⟩ := lifespan
  have hsec : (tsec + dsec).toInt = (tsec.toInt + dsec.toInt).bmod (2 ^ 32) := BitVec.toInt_add ..
  have hnano : (tnano + dnano).toNat = (tnano.toNat + dnano.toNat) % 2 ^ 32 := BitVec.toNat_add ..
  have hwrapped := Int.bmod_def (tsec.toInt + dsec.toInt) (2 ^ 32)
  unfold computed
  rw [timeToTimeValue_eq]
  simp only [expiration, nanos]
  constructor
  · intro heq
    constructor <;> simp only <;> omega
  · rintro ⟨hlower, hupper, hnanosec⟩
    simp only at hlower hupper hnanosec
    omega

theorem finite_iff : (lifespan.sec != durationInfinite.sec ||
    lifespan.nanosec != durationInfinite.nanosec) = true ↔ lifespan ≠ durationInfinite := by
  obtain ⟨sec, nanosec⟩ := lifespan
  simp only [Bool.or_eq_true, bne_iff_ne, ne_eq, durationInfinite, Duration_t.mk.injEq]
  tauto

theorem resendDataExpired_eq (finite : lifespan ≠ durationInfinite) (h : Header) (now : Int) :
    resendDataExpired (stamp h timestamp lifespan) lifespan now =
      decide (computed timestamp lifespan ≤ now) := by
  have hfinite := finite_iff.mpr finite
  simp only [resendDataExpired, stamp, hfinite, if_true]
  exact decide_eq_decide.mpr Iff.rfl

theorem filterSample_eq (finite : lifespan ≠ durationInfinite) (r : Reader) (h : Header)
    (now : Int) : filterSample r (stamp h timestamp lifespan) now =
      (discardsHistoric r h || decide (computed timestamp lifespan ≤ now) ||
        awaitsHistoric r h) := by
  have hfinite := finite_iff.mpr finite
  have hdiscards : discardsHistoric r (stamp h timestamp lifespan) = discardsHistoric r h := by
    simp only [discardsHistoric, stamp, hfinite, if_true]
  have hawaits : awaitsHistoric r (stamp h timestamp lifespan) = awaitsHistoric r h := by
    simp only [awaitsHistoric, stamp, hfinite, if_true]
  unfold filterSample
  rw [hdiscards, hawaits]
  simp only [stamp, hfinite, if_true, computed, Bool.true_and, ge_iff_le]
  cases discardsHistoric r h with
  | true => rfl
  | false =>
    by_cases hexpired : timeToTimeValue ⟨timestamp.sec + lifespan.sec,
        timestamp.nanosec + lifespan.nanosec⟩ ≤ now
    · simp [hexpired]
    · simp [hexpired]

/-- For every timestamp and every finite lifespan both sides agree at all times, and they are
exact if and only if the sums stay within their fields. -/
theorem expiresExactly_iff (finite : lifespan ≠ durationInfinite) :
    (∀ h now, resendDataExpired (stamp h timestamp lifespan) lifespan now =
      decide (computed timestamp lifespan ≤ now) ∧
      ∀ r, filterSample r (stamp h timestamp lifespan) now = (discardsHistoric r h ||
        resendDataExpired (stamp h timestamp lifespan) lifespan now || awaitsHistoric r h)) ∧
    (ExpiresExactly timestamp lifespan ↔ Fits timestamp lifespan) := by
  refine ⟨?_, ?_, ?_⟩
  · intro h now
    refine ⟨resendDataExpired_eq finite h now, ?_⟩
    intro r
    rw [filterSample_eq finite, resendDataExpired_eq finite]
  · intro exactly
    have h := exactly.writer
    simp only [resendDataExpired_eq finite, decide_eq_decide] at h
    rw [← computed_eq_iff]
    have base := DataSampleHeader.create .littleEndian
    have hle := (h base (expiration timestamp lifespan)).mpr (Int.le_refl _)
    have hge := (h base (computed timestamp lifespan)).mp (Int.le_refl _)
    omega
  · intro fits
    have heq := computed_eq_iff.mpr fits
    refine ⟨?_, ?_⟩
    · intro r h now
      rw [filterSample_eq finite, heq]
    · intro h now
      rw [resendDataExpired_eq finite, heq]

theorem expiresExactly_iff_day : ExpiresExactly ⟨1400000000#32, 999999999#32⟩ ⟨86400#32, 1#32⟩ :=
  (expiresExactly_iff (by decide)).2.mpr ⟨by decide, by decide, by decide⟩

/-- A sample of 2014 with a lifespan of a thousand million seconds is expired at once. -/
theorem long_lifespan_expired :
    let timestamp : Time_t := ⟨1400000000#32, 0#32⟩
    let lifespan : Duration_t := ⟨1000000000#32, 0#32⟩
    let header := stamp (DataSampleHeader.create .littleEndian) timestamp lifespan
    validDuration lifespan = true ∧
      filterSample ⟨false, .volatile, fun _ => none⟩ header 1400000000000000 = true ∧
      resendDataExpired header lifespan 1400000000000000 = true ∧
      expiration timestamp lifespan = 2400000000000000 ∧ ¬ ExpiresExactly timestamp lifespan := by
  refine ⟨by decide, by decide +kernel, by decide +kernel, by decide +kernel, ?_⟩
  intro exactly
  have hwriter := exactly.writer (DataSampleHeader.create .littleEndian) 1400000000000000
  revert hwriter
  decide +kernel

end OpenDDS.Guarantees.LifespanExpiry
