import Mathlib.Algebra.Ring.Int.Defs

/-!
Times and durations of dds/DCPS/Qos_Helper.inl. `DDS::Time_t` and `DDS::Duration_t` have
seconds in a signed and nanoseconds in an unsigned field of 32 bits. An `ACE_Time_Value`
is given by its microseconds; its constructor carries whole seconds out of the second
argument.
-/
namespace OpenDDS.Source

/-- `DDS::Time_t`. -/
structure Time_t where
  sec : BitVec 32
  nanosec : BitVec 32
  deriving DecidableEq, Repr

/-- `DDS::Duration_t`. -/
structure Duration_t where
  sec : BitVec 32
  nanosec : BitVec 32
  deriving DecidableEq, Repr

namespace QosHelper

def timeInvalidSec : BitVec 32 := 0xffffffff#32
def timeInvalidNsec : BitVec 32 := 0xffffffff#32

/-- `DURATION_INFINITE_SEC` and `DURATION_INFINITE_NSEC`. -/
def durationInfinite : Duration_t := ⟨0x7fffffff#32, 0x7fffffff#32⟩

/-- `operator!` of times. -/
def isInvalid (t : Time_t) : Bool := t.sec == timeInvalidSec || t.nanosec == timeInvalidNsec

/-- `operator<` of times: an invalid time is neither before nor after another one. -/
def less (t1 t2 : Time_t) : Bool :=
  if isInvalid t1 || isInvalid t2 then false
  else t1.sec.slt t2.sec || (t1.sec == t2.sec && t1.nanosec.ult t2.nanosec)

/-- `operator<` of durations. -/
def durationLess (t1 t2 : Duration_t) : Bool :=
  t1 != durationInfinite &&
    (t2 == durationInfinite || t1.sec.slt t2.sec || (t1.sec == t2.sec && t1.nanosec.ult t2.nanosec))

def timeToTimeValue (t : Time_t) : Int := t.sec.toInt * 1000000 + t.nanosec.toNat / 1000

/-- `valid_duration`. Zero is not accepted; the nanoseconds are not bounded. -/
def validDuration (t : Duration_t) : Bool :=
  t == durationInfinite || BitVec.slt 0#32 t.sec ||
    (BitVec.sle 0#32 t.sec && BitVec.ult 0#32 t.nanosec)

end QosHelper

instance : LT Time_t := ⟨fun t1 t2 => QosHelper.less t1 t2 = true⟩

instance : DecidableLT Time_t := fun t1 t2 => inferInstanceAs (Decidable (QosHelper.less t1 t2 = true))

namespace QosHelper

/-- The nanoseconds of a time. -/
def nanos (t : Time_t) : Int := t.sec.toInt * 1000000000 + t.nanosec.toNat

theorem timeToTimeValue_eq (t : Time_t) : timeToTimeValue t = nanos t / 1000 := by
  unfold timeToTimeValue nanos
  omega

end QosHelper

end OpenDDS.Source
