import Mathlib.Algebra.Ring.Int.Defs

/-!
`OpenDDS::DCPS::SequenceNumber` (dds/DCPS/Definitions.h) by its 64-bit value. The
class keeps a signed high and an unsigned low half; every comparison it defines is
the comparison of the values, and `next` and `previous` below are `operator++` and
`previous()` on them. Arithmetic on `SequenceNumber::Value` is unbounded here: a
statement that needs the absence of signed overflow says so.
-/
namespace OpenDDS.Source

namespace SequenceNumber

def minValue : Int := 1
def maxValue : Int := 2 ^ 63 - 1
def lowBase : Int := 2 ^ 32

/-- `setValue(Value)`, also the converting constructor. -/
def ofValue (value : Int) : Int := if value < minValue then minValue else value

/-- `SequenceNumber::ZERO()`, built by the private constructor without clamping. -/
def zero : Int := 0

/-- `SequenceNumber::SEQUENCENUMBER_UNKNOWN()`, high half -1 and low half 0. -/
def unknown : Int := -lowBase

/-- Pre-increment, with the wrap from the largest value to one. -/
def next (s : Int) : Int := if s = maxValue then 1 else s + 1

def previous (s : Int) : Int := if s = 1 then maxValue else s - 1

theorem ofValue_pos (value : Int) : 1 ≤ ofValue value := by
  unfold ofValue minValue
  split <;> omega

theorem le_ofValue (value : Int) : value ≤ ofValue value := by
  unfold ofValue minValue
  split <;> omega

@[simp] theorem ofValue_of_pos {value : Int} (h : 1 ≤ value) : ofValue value = value := by
  unfold ofValue minValue
  split <;> omega

theorem next_of_lt {s : Int} (h : s < maxValue) : next s = s + 1 := by
  unfold next
  split <;> omega

theorem next_maxValue : next maxValue = 1 := rfl

theorem previous_of_ne {s : Int} (h : s ≠ 1) : previous s = s - 1 := by
  simp [previous, h]

end SequenceNumber

/-- `RTPS::SequenceNumber_t`, as it stands in a submessage. -/
structure SequenceNumber_t where
  high : BitVec 32
  low : BitVec 32
  deriving DecidableEq, Repr

/-- `setValue(high, low)` on the two halves of a received number. -/
def SequenceNumber_t.value (sn : SequenceNumber_t) : Int :=
  SequenceNumber.ofValue (SequenceNumber.lowBase * sn.high.toInt + sn.low.toNat)

theorem SequenceNumber_t.value_pos (sn : SequenceNumber_t) : 1 ≤ sn.value :=
  SequenceNumber.ofValue_pos _

theorem SequenceNumber_t.value_le (sn : SequenceNumber_t) : sn.value ≤ SequenceNumber.maxValue := by
  have hhigh : sn.high.toInt < 2 ^ 31 := by
    have := BitVec.toInt_lt (x := sn.high)
    simpa using this
  unfold value SequenceNumber.ofValue SequenceNumber.maxValue SequenceNumber.minValue
    SequenceNumber.lowBase
  split <;> omega

end OpenDDS.Source
