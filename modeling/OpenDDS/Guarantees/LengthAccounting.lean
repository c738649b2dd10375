import OpenDDS.Guarantees.PacketParsing

/-!
# What is left of a packet

`pdu_remaining_` is what is left of the current transport packet. Nothing compares the length
that a sample header claims with it. As long as no header claims more than its packet has left,
no subtraction from it goes below zero.
-/
namespace OpenDDS.Guarantees.LengthAccounting
open Library Library.BufferRing Source Source.ReceiveTemplate
open Source.ReceiveStrategy (sizeSub blocks)

variable {H : Headers}

/-- The sample header that the next round of the inner loop reads. -/
def nextHeader (r : Receiving H) : Option H.DSH :=
  if r.receiveSampleRemaining = 0 then
    match blocks r.ring with
    | none => none
    | some mb =>
      if H.isPartial mb then none
      else
        match H.readSample r.pduRemaining r.sampleHeader mb with
        | .ok (header, _) => some header
        | .error _ => none
  else none

/-- The header and its sample are no longer than what is left of the packet. -/
def HeaderFits (r : Receiving H) : Prop :=
  ∀ header ∈ nextHeader r, H.marshaledSize header + (H.messageLength header).toNat ≤ r.pduRemaining

/-- A round of the inner loop subtracts no more than what is left of the packet, and the sample
in it is part of the packet. -/
structure Accounted (r : Receiving H) : Prop where
  header : ∀ header ∈ nextHeader r, H.marshaledSize header ≤ r.pduRemaining
  payload : ∀ r₁, manageSampleHeader r = .ok (.continues r₁) →
    amount (updateBufferIndex r₁).2 ≤ (updateBufferIndex r₁).2.pduRemaining
  /-- What its header claims is what was taken of it and what remains, also when it is
  complete. -/
  sample : ∀ r₁, manageSampleHeader r = .ok (.continues r₁) → r₁.goodPdu = true →
    (H.messageLength r₁.sampleHeader).toNat = r₁.payload.length + r₁.receiveSampleRemaining ∧
      r₁.receiveSampleRemaining ≤ r₁.pduRemaining

/-- A transition whose round of the inner loop, if it is one, reads no header that claims too
much. -/
def transFits (m : Moment H) (bytes : Option (List UInt8)) (after : Moment H) : Prop :=
  trans m bytes after ∧ ∀ r, m = .loops true r → 0 < r.pduRemaining → HeaderFits r

section

structure Sound (p : Parser H) : Prop where
  fits : p.receiveSampleRemaining ≤ p.pduRemaining
  claim : p.receiveSampleRemaining ≠ 0 →
    (H.messageLength p.sampleHeader).toNat = p.payload.length + p.receiveSampleRemaining
  closed : p.receiveSampleRemaining = 0 → p.payload = []
  bad : p.goodPdu = false → p.pduRemaining = 0

/-- The same behind the sample header of a round, when the sample may have no bytes left. -/
structure Open (p : Parser H) : Prop where
  fits : p.receiveSampleRemaining ≤ p.pduRemaining
  claim : p.goodPdu = true →
    (H.messageLength p.sampleHeader).toNat = p.payload.length + p.receiveSampleRemaining
  closed : p.receiveSampleRemaining = 0 → p.payload = []
  bad : p.goodPdu = false → p.pduRemaining = 0

def Step.parser : Step H → Parser H
  | .returns r => r.toParser
  | .continues r => r.toParser

variable {r r₁ : Receiving H} {step : Step H}

theorem updateBufferIndex_frame (r : Receiving H) :
    (updateBufferIndex r).2.toParser = r.toParser := by
  unfold updateBufferIndex
  split <;> rfl

theorem skipBadPdus_frame (h : skipBadPdus r = .ok step) :
    (r.goodPdu = true ∧ step = .continues r) ∨
    (r.goodPdu = false ∧
      Step.parser step = { r.toParser with pduRemaining := 0, receiveSampleRemaining := 0 }) := by
  unfold skipBadPdus at h
  cases hgood : r.goodPdu with
  | true =>
    rw [if_pos hgood] at h
    cases h
    exact .inl ⟨rfl, rfl⟩
  | false =>
    rw [if_neg (by simp [hgood])] at h
    right
    split at h
    · cases h
    · simp only at h
      have hparser := updateBufferIndex_frame { r with
        ring := advance r.pduRemaining r.ring, pduRemaining := 0, receiveSampleRemaining := 0 }
      refine ⟨rfl, ?_⟩
      split at h
      · cases h
        rename_i heq
        rw [heq] at hparser
        exact hparser
      · cases h
        rename_i heq
        rw [heq] at hparser
        exact hparser

theorem manageTransportHeader_sound (hs : Sound r.toParser)
    (h : manageTransportHeader r = .ok step) : Sound (Step.parser step) := by
  unfold manageTransportHeader at h
  split at h
  case isTrue hpdu =>
    have hsample : r.receiveSampleRemaining = 0 := by
      have hfits := hs.fits
      omega
    have hpayload := hs.closed hsample
    split at h
    · cases h
    · split at h
      · cases h
        exact hs
      · split at h
        · cases h
        · split at h
          · rcases skipBadPdus_frame h with ⟨hgood, rfl⟩ | ⟨-, hparser⟩
            · refine ⟨?_, ?_, ?_, ?_⟩
              · show r.receiveSampleRemaining ≤ _
                omega
              · exact fun hne => absurd hsample hne
              · exact fun _ => hpayload
              · exact fun hbad => Bool.noConfusion (hgood.symm.trans hbad)
            · rw [hparser]
              exact ⟨Nat.le_refl 0, fun hne => absurd rfl hne, fun _ => hpayload, fun _ => rfl⟩
          · cases h
  case isFalse hpdu =>
    rcases skipBadPdus_frame h with ⟨-, rfl⟩ | ⟨hbad, -⟩
    · exact hs
    · exact absurd (hs.bad hbad) hpdu

theorem manageSampleHeader_cases (h : manageSampleHeader r = .ok step) :
    (r.receiveSampleRemaining ≠ 0 ∧ step = .continues r) ∨
    (r.receiveSampleRemaining = 0 ∧ step = .returns r) ∨
    (r.receiveSampleRemaining = 0 ∧ ∃ header size, nextHeader r = some header ∧
      skipBadPdus (afterSampleHeader r header size) = .ok step) := by
  unfold manageSampleHeader at h
  unfold nextHeader
  split at h
  case isTrue hsample =>
    right
    rw [if_pos hsample]
    cases hmb : blocks r.ring with
    | none =>
      rw [hmb] at h
      cases h
    | some mb =>
      simp only [hmb] at h
      by_cases hpartial : H.isPartial mb = true
      · rw [if_pos hpartial] at h
        cases h
        exact .inl ⟨hsample, rfl⟩
      · rw [if_neg hpartial] at h
        cases hread : H.readSample r.pduRemaining r.sampleHeader mb with
        | error fault =>
          rw [hread] at h
          cases h
        | ok read =>
          rw [hread] at h
          refine .inr ⟨hsample, read.1, read.2, ?_, h⟩
          simp only [if_neg hpartial, hread]
  case isFalse hsample =>
    cases h
    exact .inl ⟨hsample, rfl⟩

theorem afterSampleHeader_open {header : H.DSH} {size : Nat} (hs : Sound r.toParser)
    (hsample : r.receiveSampleRemaining = 0)
    (hfits : H.marshaledSize header + (H.messageLength header).toNat ≤ r.pduRemaining)
    (h : skipBadPdus (afterSampleHeader r header size) = .ok step) :
    Open (Step.parser step) ∧ ∀ r₁, step = .returns r₁ → Sound r₁.toParser := by
  have hpayload := hs.closed hsample
  have hleft : sizeSub r.pduRemaining (H.marshaledSize header) =
      r.pduRemaining - H.marshaledSize header := if_pos (by omega)
  rcases skipBadPdus_frame h with ⟨hgood, rfl⟩ | ⟨hbad, hparser⟩
  · refine ⟨⟨?_, ?_, fun _ => hpayload, ?_⟩, fun r₁ hr => nomatch hr⟩
    · show (H.messageLength header).toNat ≤ sizeSub r.pduRemaining (H.marshaledSize header)
      omega
    · intro _
      show (H.messageLength header).toNat = r.payload.length + (H.messageLength header).toNat
      rw [hpayload, List.length_nil, Nat.zero_add]
    · exact fun hbad => Bool.noConfusion (hgood.symm.trans hbad)
  · refine ⟨?_, ?_⟩
    · rw [hparser]
      refine ⟨Nat.le_refl 0, ?_, fun _ => hpayload, fun _ => rfl⟩
      exact fun hgood => Bool.noConfusion (hgood.symm.trans hbad)
    · rintro r₁ rfl
      have hparser : r₁.toParser = _ := hparser
      rw [hparser]
      exact ⟨Nat.le_refl 0, fun hne => absurd rfl hne, fun _ => hpayload, fun _ => rfl⟩

theorem manageSampleHeader_open (hs : Sound r.toParser) (hfits : HeaderFits r)
    (h : manageSampleHeader r = .ok (.continues r₁)) : Open r₁.toParser := by
  rcases manageSampleHeader_cases h with ⟨hsample, heq⟩ | ⟨-, heq⟩ |
    ⟨hsample, header, size, hnext, hskip⟩
  · cases heq
    exact ⟨hs.fits, fun _ => hs.claim hsample, hs.closed, hs.bad⟩
  · cases heq
  · exact (afterSampleHeader_open hs hsample (hfits header hnext) hskip).1

theorem manageSampleHeader_sound (hs : Sound r.toParser) (hfits : HeaderFits r)
    (h : manageSampleHeader r = .ok (.returns r₁)) : Sound r₁.toParser := by
  rcases manageSampleHeader_cases h with ⟨-, heq⟩ | ⟨-, heq⟩ | ⟨hsample, header, size, hnext, hskip⟩
  · cases heq
  · cases heq
    exact hs
  · exact (afterSampleHeader_open hs hsample (hfits header hnext) hskip).2 r₁ rfl

theorem amount_le (r : Receiving H) : amount r ≤ r.receiveSampleRemaining := by
  unfold amount
  split
  · exact Nat.zero_le _
  · exact Nat.min_le_left _ _

theorem length_taken (r : Receiving H) :
    (((r.ring.head?.map Buffer.items).getD []).take (amount r)).length = amount r := by
  unfold amount
  cases r.ring with
  | nil => rfl
  | cons b rest =>
    rw [List.length_take]
    exact Nat.min_eq_left (Nat.min_le_right _ _)

theorem managePayload_spec (ho : Open r.toParser) :
    (managePayload r).receiveSampleRemaining ≤ (managePayload r).pduRemaining ∧
    ((managePayload r).goodPdu = true → (H.messageLength (managePayload r).sampleHeader).toNat =
      (managePayload r).payload.length + (managePayload r).receiveSampleRemaining) ∧
    ((managePayload r).goodPdu = false → (managePayload r).pduRemaining = 0) := by
  unfold managePayload
  split
  · have hle := amount_le r
    have hfits := ho.fits
    have hlength := length_taken r
    have hleft : sizeSub r.pduRemaining (amount r) = r.pduRemaining - amount r :=
      if_pos (by omega)
    refine ⟨?_, ?_, ?_⟩
    · show r.receiveSampleRemaining - amount r ≤ sizeSub r.pduRemaining (amount r)
      omega
    · intro hgood
      show (H.messageLength r.sampleHeader).toNat =
        (r.payload ++ _).length + (r.receiveSampleRemaining - amount r)
      rw [List.length_append, hlength, ho.claim hgood]
      omega
    · intro hbad
      have hzero := ho.bad hbad
      omega
  · exact ⟨ho.fits, ho.claim, ho.bad⟩

theorem manageSample_frame (r : Receiving H) :
    Step.parser (manageSample r) =
      (let r' := managePayload (updateBufferIndex r).2
       if r'.receiveSampleRemaining = 0 then dispatch r' else r').toParser := by
  dsimp only
  rw [← updateBufferIndex_frame]
  unfold manageSample
  dsimp only
  split
  · next heq =>
    rw [heq]
    rfl
  · next heq =>
    rw [heq]
    split <;> rfl

theorem manageSample_sound (ho : Open r.toParser) : Sound (Step.parser (manageSample r)) := by
  rw [← updateBufferIndex_frame r] at ho
  obtain ⟨hfits, hclaim, hbad⟩ := managePayload_spec ho
  rw [manageSample_frame]
  simp only
  split
  · rename_i hzero
    refine ⟨hfits, fun hne => absurd hzero hne, fun _ => rfl, hbad⟩
  · rename_i hopen
    refine ⟨hfits, fun _ => hclaim ?_, fun hzero => absurd hzero hopen, hbad⟩
    by_contra hfalse
    have hpdu := hbad (by simpa using hfalse)
    omega

end

section

def Moment.Sound : Moment H → Prop
  | .waits s => LengthAccounting.Sound s.toParser
  | .loops _ r => LengthAccounting.Sound r.toParser
  | .fails _ => True

theorem Step.moment_sound {step : Step H} (hs : Sound (Step.parser step)) :
    Moment.Sound step.moment := by
  cases step with
  | returns r => exact hs
  | continues r => exact hs

theorem receive_sound {s : Strategy H} (hs : Sound s.toParser) (bytes : List UInt8) :
    Moment.Sound (receive s bytes) := by
  unfold receive
  simp only
  split
  · trivial
  · split
    · trivial
    · exact ⟨hs.fits, hs.claim, hs.closed, hs.bad⟩

theorem loop_sound {inside : Bool} {r : Receiving H} (hs : Sound r.toParser)
    (hfits : inside = true → 0 < r.pduRemaining → HeaderFits r) : Moment.Sound (loop inside r) := by
  unfold loop
  split
  · rename_i hround
    have hheader := hfits hround.1 hround.2
    unfold sampleRound
    cases hstep : manageSampleHeader r with
    | error failure => trivial
    | ok step =>
      cases step with
      | returns r₁ => exact manageSampleHeader_sound hs hheader hstep
      | continues r₁ =>
        exact Step.moment_sound (manageSample_sound (manageSampleHeader_open hs hheader hstep))
  · cases hstep : manageTransportHeader r with
    | error failure => trivial
    | ok step => exact Step.moment_sound (manageTransportHeader_sound hs hstep)

theorem run_sound {th : H.TH} {dsh : H.DSH} {labels : List (Option (List UInt8))} {m : Moment H}
    (run : Run (.waits (create th dsh)) transFits labels m) : Moment.Sound m := by
  apply run.invariant Moment.Sound
  · exact ⟨Nat.le_refl 0, fun hne => absurd rfl hne, fun _ => rfl, fun hbad => nomatch hbad⟩
  · rintro m bytes after hs ⟨htrans, hfits⟩
    cases m with
    | waits s =>
      cases bytes with
      | none => exact absurd htrans id
      | some bytes =>
        obtain rfl : after = receive s bytes := htrans
        exact receive_sound hs bytes
    | loops inside r =>
      cases bytes with
      | some bytes => exact absurd htrans id
      | none =>
        obtain rfl : after = loop inside r := htrans
        refine loop_sound hs ?_
        rintro rfl hpdu
        exact hfits r rfl hpdu
    | fails failure =>
      cases bytes <;> exact absurd htrans id

/-- As long as no header claims more than its packet has left, the accounting of every round is
right. -/
theorem accounted {th : H.TH} {dsh : H.DSH} {labels : List (Option (List UInt8))}
    {r : Receiving H} (run : Run (.waits (create th dsh)) transFits labels (.loops true r))
    (hfits : HeaderFits r) : Accounted r := by
  have hs : Sound r.toParser := run_sound run
  refine ⟨?_, ?_, ?_⟩
  · intro header hnext
    have hclaim := hfits header hnext
    omega
  · intro r₁ hstep
    have ho := manageSampleHeader_open hs hfits hstep
    have hle := amount_le (updateBufferIndex r₁).2
    rw [updateBufferIndex_frame] at hle ⊢
    exact hle.trans ho.fits
  · intro r₁ hstep hgood
    have ho := manageSampleHeader_open hs hfits hstep
    exact ⟨ho.claim hgood, ho.fits⟩

end

section

/-- Where a call stands when it comes to the inner loop for the first time. -/
def firstRound (s : Strategy H) (bytes : List UInt8) : Option (Receiving H) :=
  match receive s bytes with
  | .loops false r =>
    match loop false r with
    | .loops true r => some r
    | _ => none
  | _ => none

theorem firstRound_run {s : Strategy H} {bytes : List UInt8} {r : Receiving H}
    (h : firstRound s bytes = some r) :
    Run (.waits s) transFits [some bytes, none] (.loops true r) := by
  unfold firstRound at h
  split at h
  case h_2 => cases h
  case h_1 r₀ hreceive =>
    split at h
    case h_2 => cases h
    case h_1 r₁ hloop =>
      cases h
      have hcall : Run (.waits s) transFits [some bytes] (.loops false r₀) :=
        Run.start.next ⟨hreceive.symm, fun r hr => nomatch hr⟩
      refine hcall.next ⟨hloop.symm, ?_⟩
      intro r hr
      cases hr

open PacketParsing HeaderFormat

/-- A packet that says that it has `n` bytes, and a sample of 42 bytes. -/
def claiming (n : Nat) : List UInt8 :=
  transportBytes .littleEndian
    { TransportHeader.create .littleEndian with length := BitVec.ofNat 32 n } ++
  wireBytes .littleEndian { DataSampleHeader.create .littleEndian with messageLength := 2 } [] ++
  [7, 8]

def fresh : Strategy (defaultHeaders .littleEndian) :=
  @create (defaultHeaders .littleEndian) (TransportHeader.create .littleEndian)
    (DataSampleHeader.create .littleEndian)

set_option maxRecDepth 4000 in
theorem accounted_claiming :
    ∃ r, Run (.waits fresh) transFits [some (claiming 42), none] (.loops true r) ∧
      r.pduRemaining = 42 ∧ (nextHeader r).isSome = true ∧ Accounted r := by
  have hround : ((firstRound fresh (claiming 42)).map fun r =>
      (r.pduRemaining, (nextHeader r).map fun header =>
        (defaultHeaders .littleEndian).marshaledSize header +
          ((defaultHeaders .littleEndian).messageLength header).toNat)) =
      some (42, some 42) := by decide
  obtain ⟨r, hr, hobserved⟩ := Option.map_eq_some_iff.mp hround
  obtain ⟨hpdu, hheader⟩ := Prod.mk.inj hobserved
  obtain ⟨header, hnext, hclaim⟩ := Option.map_eq_some_iff.mp hheader
  refine ⟨r, firstRound_run hr, hpdu, by rw [hnext]; rfl, accounted (firstRound_run hr) ?_⟩
  intro header' hnext'
  cases hnext.symm.trans hnext'
  rw [hclaim, hpdu]

/-- What the payload of a round takes, and what its packet has left. -/
def payloadOf (r : Receiving H) : Option (Nat × Nat) :=
  match manageSampleHeader r with
  | .ok (.continues r) =>
    some (amount (updateBufferIndex r).2, (updateBufferIndex r).2.pduRemaining)
  | _ => none

theorem Accounted.payloadOf {r : Receiving H} (h : Accounted r) {taken left : Nat}
    (heq : payloadOf r = some (taken, left)) : taken ≤ left := by
  unfold LengthAccounting.payloadOf at heq
  split at heq
  · rename_i r₁ hstep
    cases heq
    exact h.payload r₁ hstep
  · cases heq

theorem run_trans {m m' : Moment H} {labels : List (Option (List UInt8))}
    (run : Run m transFits labels m') : Run m trans labels m' :=
  run.imp fun _ _ _ h => h.1

set_option maxRecDepth 4000 in
/-- The header alone is longer than the packet, or the sample behind it: both are delivered. -/
theorem overclaiming_delivered :
    (∃ r, Run (.waits fresh) trans [some (claiming 1), none] (.loops true r) ∧
      r.pduRemaining = 1 ∧
      ((nextHeader r).map (defaultHeaders .littleEndian).marshaledSize) = some 40 ∧
      ¬ Accounted r) ∧
    (∃ r, Run (.waits fresh) trans [some (claiming 40), none] (.loops true r) ∧
      r.pduRemaining = 40 ∧ ¬ Accounted r) ∧
    ∀ n ∈ [1, 40], ∃ s, ReceiveStrategy.handleDdsInput .littleEndian (fun _ => none)
      (ReceiveStrategy.create .littleEndian) (claiming n) = .ok s ∧
      s.log.delivered.map (·.payload) = [[7, 8]] ∧ s.pduRemaining = 2 ^ 64 + n - 42 := by
  have hheader : ((firstRound fresh (claiming 1)).map fun r => (r.pduRemaining,
      (nextHeader r).map (defaultHeaders .littleEndian).marshaledSize)) = some (1, some 40) := by
    decide
  have hpayload : ((firstRound fresh (claiming 40)).map fun r => (r.pduRemaining, payloadOf r)) =
      some (40, some (2, 0)) := by decide
  have hdelivered : ∀ n ∈ [1, 40], ((ReceiveStrategy.handleDdsInput .littleEndian (fun _ => none)
      (ReceiveStrategy.create .littleEndian) (claiming n)).toOption.map fun s =>
        (s.log.delivered.map (·.payload), s.pduRemaining)) =
      some ([[7, 8]], 2 ^ 64 + n - 42) := by decide +kernel
  refine ⟨?_, ?_, ?_⟩
  · obtain ⟨r, hr, hobserved⟩ := Option.map_eq_some_iff.mp hheader
    obtain ⟨hpdu, hnext⟩ := Prod.mk.inj hobserved
    refine ⟨r, run_trans (firstRound_run hr), hpdu, hnext, fun haccounted => ?_⟩
    obtain ⟨header, hread, hsize⟩ := Option.map_eq_some_iff.mp hnext
    have hle := haccounted.header header hread
    rw [hsize, hpdu] at hle
    exact absurd hle (by decide)
  · obtain ⟨r, hr, hobserved⟩ := Option.map_eq_some_iff.mp hpayload
    obtain ⟨hpdu, htaken⟩ := Prod.mk.inj hobserved
    refine ⟨r, run_trans (firstRound_run hr), hpdu, fun haccounted => ?_⟩
    exact absurd (haccounted.payloadOf htaken) (by decide)
  · intro n hn
    obtain ⟨s, hs, hobserved⟩ := Option.map_eq_some_iff.mp (hdelivered n hn)
    obtain ⟨hpayloads, hpdu⟩ := Prod.mk.inj hobserved
    refine ⟨s, ?_, hpayloads, hpdu⟩
    cases hcall : ReceiveStrategy.handleDdsInput .littleEndian (fun _ => none)
        (ReceiveStrategy.create .littleEndian) (claiming n) with
    | error failure =>
      rw [hcall] at hs
      cases hs
    | ok s' =>
      rw [hcall] at hs
      cases hs
      rfl

end

end OpenDDS.Guarantees.LengthAccounting
