import Mathlib.Algebra.Group.Nat.Defs
import Mathlib.Tactic.Common

/-
  Little-endian byte strings.

  A number is sent low byte first and reassembled by the
  receiver.  Both directions are over `Nat`, so one codec
  serves every word width.

  Key definitions include:
    * `ByteOrder.leBytes`
    * `ByteOrder.leValue`

  The codec is exact by:
    * `ByteOrder.leValue_leBytes`
    * `ByteOrder.ofNat_leValue_leBytes`
-/

------------------------------------------------------------
-- Little-Endian Codec
------------------------------------------------------------

namespace ByteOrder

/- The `n` low bytes of a number, least significant first. -/
def leBytes : Nat → Nat → List UInt8
| 0, _ => []
| n + 1, v => UInt8.ofNat v :: leBytes n (v / 256)

/- The number a little-endian byte string stands for. -/
def leValue : List UInt8 → Nat
| [] => 0
| b :: bs => b.toNat + 256 * leValue bs

@[simp] theorem leBytes_length
    (n v : Nat) :
    (leBytes n v).length = n := by
  induction n generalizing v with
  | zero =>
      rfl
  | succ n ih =>
      simp [leBytes, ih]

/-
  Reassembling the `n` low bytes gives the number modulo
  `256 ^ n`.
-/
theorem leValue_leBytes
    (n v : Nat) :
    leValue (leBytes n v) = v % 256 ^ n := by
  induction n generalizing v with
  | zero =>
      simp [leBytes, leValue, Nat.mod_one]
  | succ n ih =>
      have hLow : (UInt8.ofNat v).toNat = v % 256 := by
        simp
      rw [leBytes, leValue, ih, hLow]
      rw [Nat.pow_succ, Nat.mul_comm (256 ^ n) 256,
        Nat.mod_mul]

/- A number that fits in `n` bytes survives the codec. -/
theorem leValue_leBytes_of_lt
    {n v : Nat}
    (hFits : v < 256 ^ n) :
    leValue (leBytes n v) = v := by
  rw [leValue_leBytes, Nat.mod_eq_of_lt hFits]

/- Four little-endian bytes carry a 32-bit word exactly. -/
theorem ofNat_leValue_leBytes
    (a : UInt32) :
    UInt32.ofNat (leValue (leBytes 4 a.toNat)) = a := by
  have hFits : a.toNat < 256 ^ 4 := a.toNat_lt
  rw [leValue_leBytes_of_lt hFits, UInt32.ofNat_toNat]

end ByteOrder
