import OpenDDS.Source.SpdpTransport

/-!
The framing of a datagram by the declared lengths of its submessages, for any byte order, operators
and chain of blocks. The loop skips ahead to a declared end, but never back.
-/
namespace OpenDDS.Guarantees.SubmessageFraming
open Library Source.Serializer Source.SpdpTransport

variable {δ π : Type}

/-- Each submessage starts at the declared end of the one before it and stops by its own; a length
of zero declares the rest of the datagram. -/
def Framed : Nat → List (Nat × Decoded δ π) → Prop
  | _, [] => True
  | left, (start, d) :: rest =>
    start = left ∧ (d.submessageLength = 0 ∨
      left ≤ bufferLength d.reader + (d.submessageLength.toNat + 4)) ∧
      Framed (left - (d.submessageLength.toNat + 4)) rest

section

variable (ops : Operators δ π) (host : ByteOrder) (participant : π)

/-- Extraction stays within the declared length at every declared end, to the end of the datagram,
a submessage that is not extracted or one that declares the rest. -/
inductive Fits : Reader → Prop
  | finished {r : Reader} (h : bufferLength r ≤ 3) : Fits r
  | returns {r : Reader} (h : decode ops host participant r = .ok none) : Fits r
  | last {r : Reader} {d : Decoded δ π} (h : decode ops host participant r = .ok (some d))
      (hlast : d.submessageLength = 0) : Fits r
  | next {r : Reader} {d : Decoded δ π} (h : decode ops host participant r = .ok (some d))
      (hle : bufferLength r ≤ bufferLength d.reader + (d.submessageLength.toNat + 4))
      (hrest : Fits (d.skipRest (bufferLength r))) : Fits r

/-- The loop ends, and its submessages are framed by their declared lengths just when they fit. -/
theorem submessages_framed_iff (turns : Nat) (r : Reader) (hops : ops.Forward)
    (h : bufferLength r < turns) :
    handleInput ops host participant turns r ≠ .ok none ∧
      ((∃ trace, handleInput ops host participant turns r = .ok (some trace) ∧
        Framed (bufferLength r) trace) ↔ Fits ops host participant r) := by
  induction turns generalizing r with
  | zero => omega
  | succ turns ih =>
    simp only [handleInput]
    split
    · rename_i hshort
      exact ⟨by simp, fun _ => .finished hshort, fun _ => ⟨[], rfl, trivial⟩⟩
    · rename_i hlong
      split
      · rename_i hfault
        refine ⟨by simp, by simp, fun hfits => ?_⟩
        cases hfits <;> simp_all
      · rename_i hnone
        exact ⟨by simp, fun _ => .returns hnone, fun _ => ⟨[], rfl, trivial⟩⟩
      · rename_i d hd
        have hread := decode_le hops hd
        split
        · rename_i hlast
          exact ⟨by simp, fun _ => .last hd hlast, fun _ => ⟨_, rfl, rfl, .inl hlast, trivial⟩⟩
        · rename_i hne
          have hnext := d.skipRest_le (bufferLength r)
          obtain ⟨hends, hiff⟩ := ih (d.skipRest (bufferLength r)) (by omega)
          have hat := d.bufferLength_skipRest hread
          have hfits : Fits ops host participant r ↔
              bufferLength r ≤ bufferLength d.reader + (d.submessageLength.toNat + 4) ∧
                Fits ops host participant (d.skipRest (bufferLength r)) := by
            refine ⟨fun hfits => ?_, fun h => .next hd h.1 h.2⟩
            cases hfits with
            | finished h => exact absurd h hlong
            | returns h => cases hd.symm.trans h
            | last h hlast =>
              cases hd.symm.trans h
              exact absurd hlast hne
            | next h hle hrest =>
              cases hd.symm.trans h
              exact ⟨hle, hrest⟩
          rw [hfits, ← hiff]
          cases hrest : handleInput ops host participant turns (d.skipRest (bufferLength r)) with
          | error fault => simp [Except.map]
          | ok out =>
            cases out with
            | none => exact absurd hrest hends
            | some rest =>
              refine ⟨by simp [Except.map], ?_, ?_⟩
              · rintro ⟨_, ⟨⟩, -, hwithin, hframed⟩
                have hle := hwithin.resolve_left hne
                exact ⟨hle, rest, rfl, hat hle ▸ hframed⟩
              · rintro ⟨hle, _, ⟨⟩, hframed⟩
                exact ⟨_, rfl, rfl, .inr hle, hat hle ▸ hframed⟩

end

/-- The first `n` octets. -/
def octets (n : Nat) (r : Reader) : Option (List UInt8) × Reader :=
  let after := r.skipBytes n
  (if after.goodBit then some ((Chain.contents r.current).take n) else none, after)

def lengthField (bytes : List UInt8) : BitVec 16 :=
  .ofNat 16 (ByteOrder.littleEndian.ofBytes ((bytes.drop 2).take 2))

/-- The operators for little endian, without inline QoS or a payload. -/
def plain : Operators (List UInt8) Unit where
  data r := .ok (octets 24 r)
  smHeader r := .ok ((octets 4 r).1.map lengthField, (octets 4 r).2)
  plist r := .ok (none, r)
  submessageLength := lengthField
  flags data := data.getD 1 0
  fromSpdpWriter data := (data.drop 12).take 4 = [0, 1, 0, 0xc2]

theorem octets_le {n : Nat} {r after : Reader} {bytes : List UInt8}
    (h : octets n r = (some bytes, after)) : bufferLength after + n ≤ bufferLength r := by
  simp only [octets, Prod.mk.injEq] at h
  obtain ⟨h, rfl⟩ := h
  split at h
  · rename_i hgood
    have hle := ((skipBytes_advanced r n).good hgood).2
    rw [bufferLength_skipBytes]
    exact Nat.sub_add_cancel hle ▸ Nat.le_refl _
  · cases h

theorem plain_forward : plain.Forward where
  data h := by
    have := octets_le (Except.ok.inj h)
    omega
  smHeader {r x after} h := by
    rcases ho : octets 4 r with ⟨_ | bytes, moved⟩
    · simp [plain, ho] at h
    · simp only [plain, ho, Except.ok.injEq, Prod.mk.injEq] at h
      exact h.2 ▸ octets_le ho
  plist h := by simp [plain] at h

/-- A DATA submessage that declares `length` octets. -/
def dataMessage (length : UInt8) (writerId : List UInt8) : List UInt8 :=
  [0x15, 1, length, 0, 0, 0, 16, 0, 0, 0, 0, 0] ++ writerId ++ [0, 0, 0, 0, 1, 0, 0, 0]

/-- Two of them behind an RTPS header, the first from a writer of SEDP. -/
def datagram (length : UInt8) : Reader :=
  ⟨[⟨20, dataMessage length [0, 0, 3, 0xc2] ++ dataMessage 20 [0, 1, 0, 0xc2]⟩], false, true, .cdr, 0⟩

theorem submessages_framed_iff_declared : Fits plain .littleEndian () (datagram 20) :=
  (submessages_framed_iff plain .littleEndian () 49 (datagram 20) plain_forward (by decide)).2.mp
    ⟨_, rfl, rfl, by decide, rfl, by decide, trivial⟩

/-- The first submessage declares eight octets and takes twenty. -/
theorem not_submessages_framed :
    ¬ ∃ trace, handleInput plain .littleEndian () 49 (datagram 8) = .ok (some trace) ∧
      Framed (bufferLength (datagram 8)) trace := by
  rintro ⟨_, ⟨⟩, -, hwithin, -⟩
  exact absurd hwithin (by decide)

end OpenDDS.Guarantees.SubmessageFraming
