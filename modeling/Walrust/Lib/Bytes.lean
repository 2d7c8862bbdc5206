import Mathlib.Data.List.Basic
import Mathlib.Tactic.Ring

/-!
# `Walrust.Lib.Bytes` — fixed-width big-endian fields

A binary header is a concatenation of big-endian fields of known width. This file has the one writer
(`beBytes`), the one reader (`beNat`) and the laws a format proof needs from them:

* `length_beBytes` — a field occupies exactly its width;
* `beNat_beBytes` — reading a written field gives the value back, modulo the width;
* `field`, `field_append` — a field at an offset, and reading it from what was written there.
-/

namespace Lib.Bytes

open List

/-- The `w` big-endian bytes of `n` (higher digits are dropped, as an integer cast does). -/
def beBytes : Nat → Nat → List UInt8
  | 0, _ => []
  | w + 1, n => UInt8.ofNat (n / 256 ^ w) :: beBytes w n

/-- The number a big-endian byte string denotes. -/
def beNat (bs : List UInt8) : Nat :=
  bs.foldl (fun acc b => acc * 256 + b.toNat) 0

@[simp] theorem length_beBytes (w n : Nat) : (beBytes w n).length = w := by
  induction w with
  | zero => rfl
  | succ w ih => simp [beBytes, ih]

theorem foldl_beBytes (w n acc : Nat) :
    (beBytes w n).foldl (fun acc b => acc * 256 + b.toNat) acc = acc * 256 ^ w + n % 256 ^ w := by
  induction w generalizing acc with
  | zero => simp [beBytes, Nat.mod_one]
  | succ w ih =>
    have hdigit : n % 256 ^ (w + 1) = n / 256 ^ w % 256 * 256 ^ w + n % 256 ^ w := by
      rw [pow_succ, Nat.mod_mul, mul_comm, add_comm]
    have hb : (UInt8.ofNat (n / 256 ^ w)).toNat = n / 256 ^ w % 256 := by simp
    simp only [beBytes, foldl_cons, ih, hb, hdigit]
    ring

/-- **Reading a written field.** The value comes back modulo the field's range. -/
theorem beNat_beBytes (w n : Nat) : beNat (beBytes w n) = n % 256 ^ w := by
  simp [beNat, foldl_beBytes]

theorem beNat_beBytes_of_lt {w n : Nat} (h : n < 256 ^ w) : beNat (beBytes w n) = n := by
  rw [beNat_beBytes, Nat.mod_eq_of_lt h]

theorem beBytes_mod {w W : Nat} (h : w ≤ W) (n : Nat) : beBytes w (n % 256 ^ W) = beBytes w n := by
  induction w with
  | zero => rfl
  | succ w ih =>
    have hsplit : 256 ^ W = 256 ^ w * 256 ^ (W - w) := by rw [← pow_add]; congr 1; omega
    have hdvd : 256 ∣ 256 ^ (W - w) := dvd_pow_self _ (by omega)
    have hdigit : UInt8.ofNat (n % 256 ^ W / 256 ^ w) = UInt8.ofNat (n / 256 ^ w) := by
      apply UInt8.toNat_inj.mp
      rw [hsplit, Nat.mod_mul_right_div_self]
      exact Nat.mod_mod_of_dvd _ hdvd
    rw [beBytes, beBytes, hdigit, ih (by omega)]

/-! ### Fields at an offset -/

/-- The big-endian field of width `w` at offset `off`. -/
def field (bs : List UInt8) (off w : Nat) : Nat := beNat ((bs.drop off).take w)

theorem field_append {pre post : List UInt8} {off w n : Nat} (hoff : pre.length = off) :
    field (pre ++ (beBytes w n ++ post)) off w = n % 256 ^ w := by
  subst hoff
  unfold field
  rw [drop_left, take_left' (length_beBytes w n), beNat_beBytes]

theorem field_take {bs : List UInt8} {off w len : Nat} (h : off + w ≤ len) :
    field (bs.take len) off w = field bs off w := by
  unfold field
  rw [drop_take, take_take, min_eq_left (by omega)]

/-! ### The machine widths -/

theorem ofNat_beNat_u32 (v : UInt32) : UInt32.ofNat (beNat (beBytes 4 v.toNat)) = v := by
  rw [beNat_beBytes_of_lt (by have := v.toNat_lt; omega)]
  simp

theorem ofNat_beNat_u64 (v : UInt64) : UInt64.ofNat (beNat (beBytes 8 v.toNat)) = v := by
  rw [beNat_beBytes_of_lt (by have := v.toNat_lt; omega)]
  simp

end Lib.Bytes
