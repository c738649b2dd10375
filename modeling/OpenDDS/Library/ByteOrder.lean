import Mathlib.Algebra.Group.Nat.Even

/-!
# Byte representations of fixed-width numbers

The octets of a number in either order, and their inverse. A reversal of the octets
changes the order.
-/
namespace OpenDDS.Library

inductive ByteOrder where
  | bigEndian
  | littleEndian
  deriving DecidableEq, Repr

namespace ByteOrder

def lowFirst : Nat → Nat → List UInt8
  | 0, _ => []
  | size + 1, v => UInt8.ofNat (v % 256) :: lowFirst size (v / 256)

def ofLowFirst : List UInt8 → Nat
  | [] => 0
  | b :: bs => b.toNat + 256 * ofLowFirst bs

/-- The `size` octets of `v` in the order `order`. -/
def toBytes (order : ByteOrder) (size v : Nat) : List UInt8 :=
  match order with
  | littleEndian => lowFirst size v
  | bigEndian => (lowFirst size v).reverse

def ofBytes (order : ByteOrder) (bytes : List UInt8) : Nat :=
  match order with
  | littleEndian => ofLowFirst bytes
  | bigEndian => ofLowFirst bytes.reverse

@[simp] theorem length_lowFirst (size v : Nat) : (lowFirst size v).length = size := by
  induction size generalizing v with
  | zero => rfl
  | succ size ih => simp [lowFirst, ih]

@[simp] theorem length_toBytes (order : ByteOrder) (size v : Nat) :
    (order.toBytes size v).length = size := by
  cases order <;> simp [toBytes]

theorem ofLowFirst_lowFirst (size v : Nat) : ofLowFirst (lowFirst size v) = v % 256 ^ size := by
  induction size generalizing v with
  | zero => simp [lowFirst, ofLowFirst, Nat.mod_one]
  | succ size ih =>
    have hbyte : (UInt8.ofNat (v % 256)).toNat = v % 256 := by
      rw [UInt8.toNat_ofNat']
      omega
    rw [lowFirst, ofLowFirst, ih, hbyte, pow_succ', Nat.mod_mul]

theorem ofBytes_toBytes (order : ByteOrder) {size v : Nat} (h : v < 256 ^ size) :
    order.ofBytes (order.toBytes size v) = v := by
  cases order <;> simp [toBytes, ofBytes, ofLowFirst_lowFirst, Nat.mod_eq_of_lt h]

end ByteOrder

end OpenDDS.Library
