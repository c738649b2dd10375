import Mathlib.Algebra.Group.Nat.Defs

/-!
`OpenDDS::DCPS::DataCollector` (dds/DCPS/DataCollector_T.{h,inl,cpp}). A bounded collector has all
elements of its buffer from the start, as the default constructor makes them: `blank`. The bound is
an `unsigned int`, and what goes to a stream is the list of the data.
-/
namespace OpenDDS.Source.DataCollector

inductive OnFull where
  | keepOldest
  | keepNewest
  | unbounded
  deriving DecidableEq

structure Collector (α : Type) where
  buffer : List α
  writeAt : Nat
  bound : Nat
  full : Bool
  onFull : OnFull

variable {α : Type}

/-- The conversion to `int`. -/
def toInt (n : Nat) : Int := (BitVec.ofNat 32 n).toInt

/-- The constructor. -/
def create (blank : α) (bound : Nat) (onFull : OnFull) : Collector α where
  buffer := if onFull = .unbounded then [] else List.replicate bound blank
  writeAt := 0
  bound := bound
  full := false
  onFull := onFull

def collect (c : Collector α) (datum : α) : Collector α :=
  if c.onFull = .unbounded then { c with buffer := c.buffer ++ [datum] }
  else if c.writeAt ≠ c.bound then
    let buffer := c.buffer.set c.writeAt datum
    if c.writeAt + 1 = c.bound then
      -- This datum filled the buffer.
      { c with buffer, full := true, writeAt := if c.onFull = .keepNewest then 0 else c.bound }
    else { c with buffer, writeAt := c.writeAt + 1 }
  else c

def size (c : Collector α) : Nat :=
  if c.onFull = .unbounded then c.buffer.length % 2 ^ 32
  else if c.full then c.bound
  else c.writeAt

/-- `insert`: oldest data first, newest data last. -/
def insert (c : Collector α) : List α :=
  let oldest := if c.full then (c.buffer.take c.bound).drop c.writeAt else []
  let bounded := toInt c.writeAt
  let stop := if bounded = 0 then toInt c.buffer.length else bounded
  oldest ++ c.buffer.take stop.toNat

end OpenDDS.Source.DataCollector
