import Mathlib.Data.List.Basic
import Mathlib.Tactic.Positivity
import Mathlib.Tactic.Ring

/-!
# Fixed-width big-endian numbers

Natural numbers as byte strings of a given width, most significant byte
first.  Writing reduces the number modulo the range of the width; reading is
total on byte strings of every length.
-/

namespace SentinelHub.Support

/-- The low `width` bytes of `n`, most significant first. -/
def bigEndian : ℕ → ℕ → List UInt8
  | 0, _ => []
  | width + 1, n => UInt8.ofNat (n / 256 ^ width) :: bigEndian width n

/-- The number spelled by a byte string. -/
def ofBigEndian : List UInt8 → ℕ
  | [] => 0
  | b :: bs => b.toNat * 256 ^ bs.length + ofBigEndian bs

@[simp] theorem length_bigEndian (width n : ℕ) :
    (bigEndian width n).length = width := by
  induction width with
  | zero => rfl
  | succ width ih => simp [bigEndian, ih]

theorem ofBigEndian_lt (bs : List UInt8) :
    ofBigEndian bs < 256 ^ bs.length := by
  induction bs with
  | nil => simp [ofBigEndian]
  | cons b bs ih =>
      have hb : b.toNat + 1 ≤ 256 := b.toNat_lt
      calc
        ofBigEndian (b :: bs) =
            b.toNat * 256 ^ bs.length + ofBigEndian bs := rfl
        _ < b.toNat * 256 ^ bs.length + 256 ^ bs.length := by omega
        _ = (b.toNat + 1) * 256 ^ bs.length := by ring
        _ ≤ 256 * 256 ^ bs.length := Nat.mul_le_mul_right _ hb
        _ = 256 ^ (b :: bs).length := by
          rw [List.length_cons, pow_succ, Nat.mul_comm]

/-- Reading back what was written, modulo the range of the width. -/
theorem ofBigEndian_bigEndian (width n : ℕ) :
    ofBigEndian (bigEndian width n) = n % 256 ^ width := by
  induction width with
  | zero => simp [bigEndian, ofBigEndian, Nat.mod_one]
  | succ width ih =>
      have hdigit : (UInt8.ofNat (n / 256 ^ width)).toNat =
          n / 256 ^ width % 256 := by
        simp
      rw [bigEndian, ofBigEndian, ih, length_bigEndian, hdigit, pow_succ,
        Nat.mod_mul]
      ring

theorem ofBigEndian_bigEndian_of_lt {width n : ℕ} (hn : n < 256 ^ width) :
    ofBigEndian (bigEndian width n) = n := by
  rw [ofBigEndian_bigEndian, Nat.mod_eq_of_lt hn]

/-- The leading digit of a number that is written with one more byte. -/
theorem bigEndian_add_mul (width d n : ℕ) :
    bigEndian width (d * 256 ^ width + n) = bigEndian width n := by
  induction width generalizing d n with
  | zero => rfl
  | succ width ih =>
      have hdiv : (d * 256 ^ (width + 1) + n) / 256 ^ width =
          d * 256 + n / 256 ^ width := by
        have hmul : d * 256 ^ (width + 1) = 256 ^ width * (d * 256) := by
          ring
        rw [hmul, Nat.mul_add_div (by positivity)]
      have htail : bigEndian width (d * 256 ^ (width + 1) + n) =
          bigEndian width n := by
        have hmul : d * 256 ^ (width + 1) = d * 256 * 256 ^ width := by
          ring
        rw [hmul, ih]
      rw [bigEndian, bigEndian, hdiv, htail]
      congr 1
      rw [← UInt8.toNat_inj]
      simp

/-- A byte string is what is written for the number it spells. -/
theorem bigEndian_ofBigEndian (bs : List UInt8) :
    bigEndian bs.length (ofBigEndian bs) = bs := by
  induction bs with
  | nil => rfl
  | cons b bs ih =>
      have hlt := ofBigEndian_lt bs
      have hdiv : (b.toNat * 256 ^ bs.length + ofBigEndian bs) /
          256 ^ bs.length = b.toNat := by
        rw [Nat.mul_comm, Nat.mul_add_div (by positivity),
          Nat.div_eq_of_lt hlt, Nat.add_zero]
      rw [List.length_cons, ofBigEndian, bigEndian, hdiv, bigEndian_add_mul,
        ih, UInt8.ofNat_toNat]

end SentinelHub.Support
